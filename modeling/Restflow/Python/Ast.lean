import Restflow.Python.Value

/-!
# The Python syntax the compiler reads

The statement and expression kinds `WorkflowParser` dispatches on, and `ast.unparse`;
the kinds it never tests for are `other`.
-/

namespace Restflow.Python

inductive UnaryOp where
  | invert
  | not
  | uadd
  | usub
  deriving DecidableEq, Repr

inductive Expr where
  | name (id : String)
  | attribute (value : Expr) (attr : String)
  | call (func : Expr) (args : List Expr) (keywords : List (Option String × Expr))
  | constant (value : Const)
  | list (elts : List Expr)
  | tuple (elts : List Expr)
  | dict (items : List (Option Expr × Expr))
  | unaryOp (op : UnaryOp) (operand : Expr)
  | other (unparsed : Except PyError String)
  deriving Repr, Inhabited

inductive Stmt where
  | assign (target value : Expr)
  | if_ (test : Expr) (body orelse : List Stmt)
  | for_ (target iter : Expr) (body : List Stmt)
  | return_ (value : Option Expr)
  | other (body : List Stmt)
  deriving Repr, Inhabited

/-- A positional parameter, `func_def.args.args[i]`. -/
structure Arg where
  arg : String
  annotation : Option Expr
  deriving Repr

structure FunctionDef where
  name : String
  args : List Arg
  body : List Stmt
  deriving Repr

def hexDigit (n : Nat) : Char :=
  if n < 10 then Char.ofNat (48 + n) else Char.ofNat (87 + n)

/-- One character of a `str` or `bytes` repr quoted with `q`. -/
def reprChar (q c : Char) : List Char :=
  if c = '\\' then ['\\', '\\']
  else if c = q then ['\\', q]
  else if c = '\n' then ['\\', 'n']
  else if c = '\r' then ['\\', 'r']
  else if c = '\t' then ['\\', 't']
  else if c.toNat < 0x20 || c.toNat = 0x7f then
    ['\\', 'x', hexDigit (c.toNat / 16), hexDigit (c.toNat % 16)]
  else [c]

/-- `repr` quotes with `'` unless the text holds `'` and no `"`. -/
def reprQuoted (cs : List Char) : List Char :=
  let q := if cs.contains '\x27' && !cs.contains '"' then '"' else '\x27'
  q :: cs.flatMap (reprChar q) ++ [q]

/-- A `bytes` repr: bytes from `0x80` up are written `\\xNN` as well. -/
def reprBytes (bs : List UInt8) : String :=
  let cs := bs.map fun b => Char.ofNat b.toNat
  let q := if cs.contains '\x27' && !cs.contains '"' then '"' else '\x27'
  let body := cs.flatMap fun c =>
    if c.toNat < 0x80 then reprChar q c
    else ['\\', 'x', hexDigit (c.toNat / 16), hexDigit (c.toNat % 16)]
  String.mk ('b' :: q :: body ++ [q])

/-- A float as the unparser writes it: `repr`, with `inf` spelled `1e309`. -/
def unparseFloat (f : PyFloat) : String :=
  if f.repr = "inf" then "1e309"
  else if f.repr = "-inf" then "-1e309"
  else if f.repr = "nan" then "(1e309-1e309)"
  else f.repr

/-- The repr of a complex part, which drops a trailing `.0`. -/
def complexPart (f : PyFloat) : String :=
  let s := unparseFloat f
  if s.endsWith ".0" then s.dropRight 2 else s

/-- `repr` of a constant, which raises for an int past `maxStrDigits`. -/
def Const.unparse : Const → Except PyError String
  | .pyNone => .ok "None"
  | .bool true => .ok "True"
  | .bool false => .ok "False"
  | .int i => intRepr i
  | .float f => .ok (unparseFloat f)
  | .complex re im =>
    if re.repr = "0.0" then .ok (complexPart im ++ "j")
    else
      let sign := if (complexPart im).startsWith "-" then "" else "+"
      .ok ("(" ++ complexPart re ++ sign ++ complexPart im ++ "j)")
  | .str s => .ok (String.mk (reprQuoted s.toList))
  | .bytes b => .ok (reprBytes b)
  | .ellipsis => .ok "..."

def UnaryOp.text : UnaryOp → String
  | .invert => "~"
  | .not => "not "
  | .uadd => "+"
  | .usub => "-"

/-- `-(not x)` needs parentheses: `not` binds looser than a sign. -/
def operandNeedsParens (op : UnaryOp) : Expr → Bool
  | .unaryOp .not _ => op != .not
  | _ => false

mutual
def unparse : Expr → Except PyError String
  | .name id => .ok id
  | .attribute value attr => return (← unparse value) ++ "." ++ attr
  | .call func args keywords => do
    let f ← unparse func
    let args ← unparseList args
    let keywords ← unparseKeywords keywords
    return f ++ "(" ++ ", ".intercalate (args ++ keywords) ++ ")"
  | .constant value => value.unparse
  | .list elts => return "[" ++ ", ".intercalate (← unparseList elts) ++ "]"
  | .tuple [elt] => return "(" ++ (← unparse elt) ++ ",)"
  | .tuple elts => return "(" ++ ", ".intercalate (← unparseList elts) ++ ")"
  | .dict items => return "\x7b" ++ ", ".intercalate (← unparseItems items) ++ "\x7d"
  | .unaryOp op operand => do
    let text ← unparse operand
    return if operandNeedsParens op operand then op.text ++ "(" ++ text ++ ")" else op.text ++ text
  | .other unparsed => unparsed
def unparseList : List Expr → Except PyError (List String)
  | [] => .ok []
  | e :: es => return (← unparse e) :: (← unparseList es)
def unparseKeywords : List (Option String × Expr) → Except PyError (List String)
  | [] => .ok []
  | (some arg, value) :: rest => return (arg ++ "=" ++ (← unparse value)) :: (← unparseKeywords rest)
  | (none, value) :: rest => return ("**" ++ (← unparse value)) :: (← unparseKeywords rest)
def unparseItems : List (Option Expr × Expr) → Except PyError (List String)
  | [] => .ok []
  | (some key, value) :: rest => do
    let item := (← unparse key) ++ ": " ++ (← unparse value)
    return item :: (← unparseItems rest)
  | (none, value) :: rest => return ("**" ++ (← unparse value)) :: (← unparseItems rest)
end

@[simp] theorem unparse_name (id : String) : unparse (.name id) = .ok id := rfl

def Const.intsFit : Const → Bool
  | .int i => intFits i
  | _ => true

mutual
def Expr.intsFit : Expr → Bool
  | .name _ => true
  | .attribute value _ => value.intsFit
  | .call func args keywords =>
    func.intsFit && Expr.intsFitList args && Expr.intsFitKeywords keywords
  | .constant value => value.intsFit
  | .list elts | .tuple elts => Expr.intsFitList elts
  | .dict items => Expr.intsFitItems items
  | .unaryOp _ operand => operand.intsFit
  | .other unparsed => unparsed.isOk
def Expr.intsFitList : List Expr → Bool
  | [] => true
  | e :: es => e.intsFit && Expr.intsFitList es
def Expr.intsFitKeywords : List (Option String × Expr) → Bool
  | [] => true
  | (_, value) :: rest => value.intsFit && Expr.intsFitKeywords rest
def Expr.intsFitItems : List (Option Expr × Expr) → Bool
  | [] => true
  | (some key, value) :: rest => key.intsFit && value.intsFit && Expr.intsFitItems rest
  | (none, value) :: rest => value.intsFit && Expr.intsFitItems rest
end

def Arg.intsFit : Arg → Bool
  | ⟨_, annotation⟩ => annotation.all Expr.intsFit

theorem Const.unparse_ok {c : Const} (h : c.intsFit = true) : ∃ t, c.unparse = .ok t := by
  cases c with
  | int i => exact ⟨_, by simp [Const.unparse, intRepr, show intFits i = true from h]; rfl⟩
  | bool b => cases b <;> exact ⟨_, rfl⟩
  | complex re im => by_cases hr : re.repr = "0.0" <;> simp [Const.unparse, hr]
  | _ => exact ⟨_, rfl⟩

mutual
/-- `ast.unparse` raises only on an int constant past the digit limit. -/
theorem unparse_ok : ∀ (e : Expr), e.intsFit = true → ∃ t, unparse e = .ok t
  | .name _, _ => ⟨_, rfl⟩
  | .attribute value _, h => by
    obtain ⟨t, ht⟩ := unparse_ok value h
    exact ⟨_, by simp [unparse, ht]; rfl⟩
  | .call func args keywords, h => by
    simp only [Expr.intsFit, Bool.and_eq_true] at h
    obtain ⟨t, ht⟩ := unparse_ok func h.1.1
    obtain ⟨ts, hts⟩ := unparseList_ok args h.1.2
    obtain ⟨ks, hks⟩ := unparseKeywords_ok keywords h.2
    exact ⟨_, by simp [unparse, ht, hts, hks]; rfl⟩
  | .constant value, h => Const.unparse_ok h
  | .list elts, h => by
    obtain ⟨ts, hts⟩ := unparseList_ok elts h
    exact ⟨_, by simp [unparse, hts]; rfl⟩
  | .tuple [elt], h => by
    obtain ⟨t, ht⟩ := unparse_ok elt (by simpa [Expr.intsFit, Expr.intsFitList] using h)
    exact ⟨_, by simp [unparse, ht]; rfl⟩
  | .tuple [], _ => ⟨_, rfl⟩
  | .tuple (a :: b :: elts), h => by
    obtain ⟨ts, hts⟩ := unparseList_ok (a :: b :: elts) h
    exact ⟨_, by simp only [unparse, hts]; rfl⟩
  | .dict items, h => by
    obtain ⟨ts, hts⟩ := unparseItems_ok items h
    exact ⟨_, by simp [unparse, hts]; rfl⟩
  | .unaryOp _ operand, h => by
    obtain ⟨t, ht⟩ := unparse_ok operand h
    exact ⟨_, by simp [unparse, ht]; rfl⟩
  | .other unparsed, h => by
    cases unparsed with
    | ok t => exact ⟨t, rfl⟩
    | error => cases h
theorem unparseList_ok : ∀ (es : List Expr), Expr.intsFitList es = true →
    ∃ ts, unparseList es = .ok ts
  | [], _ => ⟨_, rfl⟩
  | e :: es, h => by
    simp only [Expr.intsFitList, Bool.and_eq_true] at h
    obtain ⟨t, ht⟩ := unparse_ok e h.1
    obtain ⟨ts, hts⟩ := unparseList_ok es h.2
    exact ⟨_, by simp [unparseList, ht, hts]; rfl⟩
theorem unparseKeywords_ok : ∀ (kws : List (Option String × Expr)), Expr.intsFitKeywords kws = true →
    ∃ ts, unparseKeywords kws = .ok ts
  | [], _ => ⟨_, rfl⟩
  | (arg, value) :: rest, h => by
    simp only [Expr.intsFitKeywords, Bool.and_eq_true] at h
    obtain ⟨t, ht⟩ := unparse_ok value h.1
    obtain ⟨ts, hts⟩ := unparseKeywords_ok rest h.2
    cases arg <;> exact ⟨_, by simp [unparseKeywords, ht, hts]; rfl⟩
theorem unparseItems_ok : ∀ (items : List (Option Expr × Expr)), Expr.intsFitItems items = true →
    ∃ ts, unparseItems items = .ok ts
  | [], _ => ⟨_, rfl⟩
  | (some key, value) :: rest, h => by
    simp only [Expr.intsFitItems, Bool.and_eq_true] at h
    obtain ⟨k, hk⟩ := unparse_ok key h.1.1
    obtain ⟨t, ht⟩ := unparse_ok value h.1.2
    obtain ⟨ts, hts⟩ := unparseItems_ok rest h.2
    exact ⟨_, by simp [unparseItems, hk, ht, hts]; rfl⟩
  | (none, value) :: rest, h => by
    simp only [Expr.intsFitItems, Bool.and_eq_true] at h
    obtain ⟨t, ht⟩ := unparse_ok value h.1
    obtain ⟨ts, hts⟩ := unparseItems_ok rest h.2
    exact ⟨_, by simp [unparseItems, ht, hts]; rfl⟩
end

end Restflow.Python
