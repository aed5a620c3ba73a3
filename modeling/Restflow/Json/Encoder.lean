import Restflow.Python.Ast

/-!
# `json.dumps`

CPython's `_make_iterencode` with `indent=2` (`iterencode`), and the document it
writes, laid out by `JsonValue.render` (`iterencode_eq`); `dumpsCompact` is the
one-line layout of the same document that `json.dumps(obj)` writes.
-/

namespace Restflow

open Python

/-- `S_CHAR`: a character written as itself. -/
def sChar (c : Char) : Bool :=
  0x20 ≤ c.toNat && c.toNat ≤ 0x7e && c != '\\' && c != '"'

/-- `Py_hexdigits[(c >> 12) & 0xf]`, ..., `Py_hexdigits[c & 0xf]`. -/
def hex4 (c : Nat) : List Char :=
  [hexDigit ((c >>> 12) &&& 0xf), hexDigit ((c >>> 8) &&& 0xf), hexDigit ((c >>> 4) &&& 0xf),
    hexDigit (c &&& 0xf)]

/-- `ascii_escape_unichar`: a backslash escape; above the BMP, the UTF-16 surrogate
pair `Py_UNICODE_HIGH_SURROGATE(c)`, `Py_UNICODE_LOW_SURROGATE(c)`. -/
def asciiEscapeUnichar (c : Char) : List Char :=
  '\\' :: match c with
    | '\\' => ['\\']
    | '"' => ['"']
    | '\x08' => ['b']
    | '\x0c' => ['f']
    | '\n' => ['n']
    | '\r' => ['r']
    | '\t' => ['t']
    | c =>
      if 0x10000 ≤ c.toNat then
        'u' :: hex4 (0xD800 - (0x10000 >>> 10) + (c.toNat >>> 10)) ++
          '\\' :: 'u' :: hex4 (0xDC00 + (c.toNat &&& 0x3FF))
      else 'u' :: hex4 c.toNat

def escapeChar (c : Char) : List Char :=
  if sChar c then [c] else asciiEscapeUnichar c

/-- `ascii_escape_unicode`: the quoted, escaped text of a `str`. -/
def encodeBasestringAscii (s : String) : List Char :=
  '"' :: s.toList.flatMap escapeChar ++ ['"']

/-- `floatstr` with `allow_nan=True`: `NaN`, `Infinity` and `-Infinity`, else
`float.__repr__`. -/
def floatstr (f : PyFloat) : String :=
  if f.repr = "nan" then "NaN"
  else if f.repr = "inf" then "Infinity"
  else if f.repr = "-inf" then "-Infinity"
  else f.repr

/-- What `_iterencode` writes for a constant: anything but `str`, `None`, `bool`,
`int` and `float` goes to `default`, which raises. -/
def encodeScalar : Const → Except PyError (List Char)
  | .str s => pure (encodeBasestringAscii s)
  | .pyNone => pure "null".toList
  | .bool true => pure "true".toList
  | .bool false => pure "false".toList
  | .int i => (intRepr i).map String.toList
  | .float f => pure (floatstr f).toList
  | c => throw (.typeError ("Object of type " ++ c.typeName ++ " is not JSON serializable"))

/-- The key conversion of `_iterencode_dict`. -/
def keyText? : PyVal → Except PyError String
  | .const (.str s) => pure s
  | .const (.float f) => pure (floatstr f)
  | .const (.bool true) => pure "true"
  | .const (.bool false) => pure "false"
  | .const .pyNone => pure "null"
  | .const (.int i) => intRepr i
  | k => throw (.typeError ("keys must be str, int, float, bool or None, not " ++ k.typeName))

/-- `'\n' + _indent * level`. -/
def newlineIndent (level : Nat) : List Char := '\n' :: List.replicate (2 * level) ' '

mutual
/-- `_iterencode(o, level)`, its chunks joined. -/
def iterencode : PyVal → Nat → Except PyError (List Char)
  | .const c, _ => encodeScalar c
  | .list items, level => iterencodeList items level
  | .dict items, level => iterencodeDict items level
/-- `_iterencode_list(lst, level)`. -/
def iterencodeList : List PyVal → Nat → Except PyError (List Char)
  | [], _ => pure "[]".toList
  | v :: vs, level => do
    let first ← iterencode v (level + 1)
    let rest ← iterencodeListItems vs (level + 1)
    pure ('[' :: newlineIndent (level + 1) ++ first ++ rest ++ newlineIndent level ++ [']'])
/-- The items of `_iterencode_list` after the first, each after `separator`. -/
def iterencodeListItems : List PyVal → Nat → Except PyError (List Char)
  | [], _ => pure []
  | v :: vs, level => do
    let chunk ← iterencode v level
    let rest ← iterencodeListItems vs level
    pure (',' :: newlineIndent level ++ chunk ++ rest)
/-- `_iterencode_dict(dct, level)`. -/
def iterencodeDict : List (PyVal × PyVal) → Nat → Except PyError (List Char)
  | [], _ => pure "{}".toList
  | (k, v) :: items, level => do
    let key ← keyText? k
    let value ← iterencode v (level + 1)
    let rest ← iterencodeDictItems items (level + 1)
    pure ('{' :: newlineIndent (level + 1) ++ encodeBasestringAscii key ++ ':' :: ' ' :: value ++
      rest ++ newlineIndent level ++ ['}'])
/-- The items of `_iterencode_dict` after the first, each after `item_separator`. -/
def iterencodeDictItems : List (PyVal × PyVal) → Nat → Except PyError (List Char)
  | [], _ => pure []
  | (k, v) :: items, level => do
    let key ← keyText? k
    let value ← iterencode v level
    let rest ← iterencodeDictItems items level
    pure (',' :: newlineIndent level ++ encodeBasestringAscii key ++ ':' :: ' ' :: value ++ rest)
end

/-- `json.dumps(obj, indent=2)`. -/
def dumps (v : PyVal) : Except PyError String :=
  (iterencode v 0).map String.mk

/-- A JSON document; a number is its token. -/
inductive JsonValue where
  | null
  | bool (b : Bool)
  | number (text : String)
  | string (s : String)
  | array (elems : List JsonValue)
  | object (members : List (String × JsonValue))
  deriving Repr, Inhabited

def Python.Const.toJson? : Const → Except PyError JsonValue
  | .str s => pure (.string s)
  | .pyNone => pure .null
  | .bool b => pure (.bool b)
  | .int i => (intRepr i).map .number
  | .float f => pure (.number (floatstr f))
  | c => throw (.typeError ("Object of type " ++ c.typeName ++ " is not JSON serializable"))

mutual
/-- The document `json.dumps` writes for a value: dict keys become strings. -/
def Python.PyVal.toJson? : PyVal → Except PyError JsonValue
  | .const c => c.toJson?
  | .list items => return .array (← Python.PyVal.toJsonList? items)
  | .dict items => return .object (← Python.PyVal.toJsonItems? items)
def Python.PyVal.toJsonList? : List PyVal → Except PyError (List JsonValue)
  | [] => pure []
  | v :: vs => return (← v.toJson?) :: (← Python.PyVal.toJsonList? vs)
def Python.PyVal.toJsonItems? : List (PyVal × PyVal) → Except PyError (List (String × JsonValue))
  | [] => pure []
  | (k, v) :: items => do
    let key ← keyText? k
    let value ← v.toJson?
    return (key, value) :: (← Python.PyVal.toJsonItems? items)
end

mutual
def JsonValue.render : JsonValue → Nat → List Char
  | .null, _ => "null".toList
  | .bool true, _ => "true".toList
  | .bool false, _ => "false".toList
  | .number t, _ => t.toList
  | .string s, _ => encodeBasestringAscii s
  | .array [], _ => "[]".toList
  | .array (v :: vs), level =>
    '[' :: newlineIndent (level + 1) ++ v.render (level + 1) ++ JsonValue.renderElems vs (level + 1) ++
      newlineIndent level ++ [']']
  | .object [], _ => "{}".toList
  | .object ((k, v) :: ms), level =>
    '{' :: newlineIndent (level + 1) ++ encodeBasestringAscii k ++ ':' :: ' ' :: v.render (level + 1) ++
      JsonValue.renderMembers ms (level + 1) ++ newlineIndent level ++ ['}']
def JsonValue.renderElems : List JsonValue → Nat → List Char
  | [], _ => []
  | v :: vs, level => ',' :: newlineIndent level ++ v.render level ++ JsonValue.renderElems vs level
def JsonValue.renderMembers : List (String × JsonValue) → Nat → List Char
  | [], _ => []
  | (k, v) :: ms, level =>
    ',' :: newlineIndent level ++ encodeBasestringAscii k ++ ':' :: ' ' :: v.render level ++
      JsonValue.renderMembers ms level
end

theorem encodeScalar_eq (c : Const) (level : Nat) :
    encodeScalar c = (c.toJson?).map (·.render level) := by
  cases c with
  | bool b => cases b <;> rfl
  | int i =>
    show (intRepr i).map String.toList = ((intRepr i).map JsonValue.number).map (·.render level)
    cases intRepr i <;> rfl
  | _ => rfl

mutual
/-- The generator writes the layout of the document. -/
theorem iterencode_eq : ∀ (v : PyVal) (level : Nat),
    iterencode v level = (v.toJson?).map (·.render level)
  | .const c, level => encodeScalar_eq c level
  | .list [], _ => rfl
  | .list (v :: vs), level => by
    simp only [iterencode, iterencodeList, PyVal.toJson?, PyVal.toJsonList?,
      iterencode_eq v, iterencodeListItems_eq vs]
    cases v.toJson? <;> cases PyVal.toJsonList? vs <;> rfl
  | .dict [], _ => rfl
  | .dict ((k, v) :: items), level => by
    simp only [iterencode, iterencodeDict, PyVal.toJson?, PyVal.toJsonItems?,
      iterencode_eq v, iterencodeDictItems_eq items]
    cases keyText? k <;> cases v.toJson? <;> cases PyVal.toJsonItems? items <;> rfl
theorem iterencodeListItems_eq : ∀ (vs : List PyVal) (level : Nat),
    iterencodeListItems vs level = (PyVal.toJsonList? vs).map (JsonValue.renderElems · level)
  | [], _ => rfl
  | v :: vs, level => by
    simp only [iterencodeListItems, PyVal.toJsonList?, iterencode_eq v, iterencodeListItems_eq vs]
    cases v.toJson? <;> cases PyVal.toJsonList? vs <;> rfl
theorem iterencodeDictItems_eq : ∀ (items : List (PyVal × PyVal)) (level : Nat),
    iterencodeDictItems items level =
      (PyVal.toJsonItems? items).map (JsonValue.renderMembers · level)
  | [], _ => rfl
  | (k, v) :: items, level => by
    simp only [iterencodeDictItems, PyVal.toJsonItems?, iterencode_eq v, iterencodeDictItems_eq items]
    cases keyText? k <;> cases v.toJson? <;> cases PyVal.toJsonItems? items <;> rfl
end

theorem dumps_eq (v : PyVal) : dumps v = (v.toJson?).map fun j => String.mk (j.render 0) := by
  simp only [dumps, iterencode_eq]
  cases v.toJson? <;> rfl

mutual
/-- The one-line layout of a document, with `item_separator = ', '` and
`key_separator = ': '`. -/
def JsonValue.renderCompact : JsonValue → List Char
  | .array [] => "[]".toList
  | .array (v :: vs) => '[' :: v.renderCompact ++ JsonValue.renderCompactElems vs ++ [']']
  | .object [] => "{}".toList
  | .object ((k, v) :: ms) =>
    '{' :: encodeBasestringAscii k ++ ':' :: ' ' :: v.renderCompact ++
      JsonValue.renderCompactMembers ms ++ ['}']
  | j => j.render 0
def JsonValue.renderCompactElems : List JsonValue → List Char
  | [] => []
  | v :: vs => ',' :: ' ' :: v.renderCompact ++ JsonValue.renderCompactElems vs
def JsonValue.renderCompactMembers : List (String × JsonValue) → List Char
  | [] => []
  | (k, v) :: ms =>
    ',' :: ' ' :: encodeBasestringAscii k ++ ':' :: ' ' :: v.renderCompact ++
      JsonValue.renderCompactMembers ms
end

/-- `json.dumps(obj)`: with no indent, `c_make_encoder` writes the document of
`_make_iterencode`, with its errors, on one line. -/
def dumpsCompact (v : PyVal) : Except PyError String :=
  (v.toJson?).map fun j => String.mk j.renderCompact

end Restflow
