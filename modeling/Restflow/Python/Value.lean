import Restflow.Python.Float

/-!
# Python values

The constants an `ast.Constant` holds, the lists and dicts `_value_to_python` folds out
of keyword arguments, Python's `==` on them, and the exceptions the runtime raises.
-/

namespace Restflow.Python

def intPartOk : List Char → Bool
  | ['0'] => true
  | c :: cs => c.isDigit && c != '0' && cs.all Char.isDigit
  | [] => false

def expPartOk : List Char → Bool
  | [] => true
  | c :: cs => (c == 'e' || c == 'E') &&
    match cs with
    | s :: ds => if s == '+' || s == '-' then !ds.isEmpty && ds.all Char.isDigit
      else cs.all Char.isDigit
    | [] => false

def fracExpOk : List Char → Bool
  | '.' :: cs => !(cs.takeWhile Char.isDigit).isEmpty && expPartOk (cs.dropWhile Char.isDigit)
  | cs => expPartOk cs

/-- The number grammar of RFC 8259: `-? (0 | [1-9][0-9]*) (. [0-9]+)? ([eE] [+-]? [0-9]+)?`. -/
def isNumber (cs : List Char) : Bool :=
  let body := match cs with
    | '-' :: r => r
    | r => r
  intPartOk (body.takeWhile Char.isDigit) && fracExpOk (body.dropWhile Char.isDigit)

/-- The texts `float.__repr__` prints: `inf`, `-inf`, `nan`, or a number with a
fraction or an exponent (`1.0`, `1e+16`, `-2.5e-07`). -/
def floatReprOk (cs : List Char) : Bool :=
  cs == "inf".toList || cs == "-inf".toList || cs == "nan".toList ||
    (isNumber cs && cs.any fun c => c == '.' || c == 'e')

theorem isNumber_minus (cs : List Char) : isNumber ('-' :: cs) =
    (intPartOk (cs.takeWhile Char.isDigit) && fracExpOk (cs.dropWhile Char.isDigit)) := rfl

theorem isNumber_of_head {cs : List Char} (h : cs.head? ≠ some '-') : isNumber cs =
    (intPartOk (cs.takeWhile Char.isDigit) && fracExpOk (cs.dropWhile Char.isDigit)) := by
  match cs, h with
  | [], _ => rfl
  | c :: cs, h =>
    have : c ≠ '-' := fun e => h (by simp [e])
    simp [isNumber, this]

theorem floatReprOk_of_minus {cs : List Char} (h : floatReprOk ('-' :: cs) = true) :
    floatReprOk cs = true := by
  cases cs with
  | nil => simp [floatReprOk, isNumber_minus, intPartOk] at h
  | cons c cs =>
    by_cases hc : c = '-'
    · subst hc; simp [floatReprOk, isNumber_minus, intPartOk] at h
    · simp only [floatReprOk, Bool.or_eq_true, beq_iff_eq, Bool.and_eq_true, List.any_cons] at h ⊢
      rw [isNumber_of_head (by simpa using hc)]
      rw [isNumber_minus] at h
      rcases h with ((h | h) | h) | ⟨h1, h2⟩
      · simp at h
      · simp at h; simp [h]
      · simp at h
      · exact .inr ⟨h1, by simpa using h2⟩

theorem floatReprOk_minus {cs : List Char} (h : floatReprOk cs = true) (hm : cs.head? ≠ some '-')
    (hn : cs ≠ "nan".toList) : floatReprOk ('-' :: cs) = true := by
  simp only [floatReprOk, Bool.or_eq_true, beq_iff_eq, Bool.and_eq_true, List.any_cons] at h ⊢
  rw [isNumber_of_head hm] at h
  rcases h with ((h | h) | h) | ⟨h1, h2⟩
  · simp [h]
  · simp [h] at hm
  · exact absurd h hn
  · exact .inr ⟨by rw [isNumber_minus]; exact h1, by simp [h2]⟩

/-- A Python float: a double, with the proof that its `repr` reads back as itself and
is a numeral, `inf`, `-inf` or `nan`. -/
structure PyFloat where
  bits : Binary64
  roundTrip : Binary64.ofText bits.reprChars = bits
  valid : floatReprOk bits.reprChars = true
  deriving DecidableEq, Repr

def PyFloat.repr (f : PyFloat) : String := ⟨f.bits.reprChars⟩

def PyFloat.inf : PyFloat := ⟨.inf false, by decide, by decide⟩

theorem Binary64.roundTrip_negate {x : Binary64} (h : ofText x.reprChars = x) :
    ofText x.negate.reprChars = x.negate := by
  match x, h with
  | .finite false m e, h =>
    show ofText ('-' :: magnitudeText m e) = .finite true m e
    rw [ofText_minus, show ofText (magnitudeText m e) = .finite false m e from h]
    rfl
  | .finite true m e, h =>
    have h : (ofText (magnitudeText m e)).negate = .finite true m e := h
    exact (negate_negate _).symm.trans (congrArg negate h)
  | .inf false, _ | .inf true, _ => decide
  | .nan, h => exact h

theorem Binary64.valid_negate {x : Binary64} (h : floatReprOk x.reprChars = true) :
    floatReprOk x.negate.reprChars = true := by
  match x, h with
  | .finite false m e, h =>
    have hd := magnitudeText_head m e
    refine floatReprOk_minus (by simpa [reprChars] using h) (fun hm => (hd '-' hm).1 rfl) ?_
    intro hn
    exact (hd 'n' (by rw [show magnitudeText m e = "nan".toList from hn]; rfl)).2 rfl
  | .finite true m e, h => exact floatReprOk_of_minus h
  | .inf false, _ | .inf true, _ => decide
  | .nan, h => exact h

def PyFloat.neg (f : PyFloat) : PyFloat :=
  ⟨f.bits.negate, Binary64.roundTrip_negate f.roundTrip, Binary64.valid_negate f.valid⟩

/-- The value of an `ast.Constant`. -/
inductive Const where
  | pyNone
  | bool (b : Bool)
  | int (i : Int)
  | float (f : PyFloat)
  | complex (re im : PyFloat)
  | str (s : String)
  | bytes (b : List UInt8)
  | ellipsis
  deriving DecidableEq, Repr

/-- A number as Python compares numbers: `m * 10 ^ e`, an infinity, or NaN. -/
inductive NumVal where
  | finite (m e : Int)
  | inf (neg : Bool)
  | nan
  deriving DecidableEq, Repr

def NumVal.eq : NumVal → NumVal → Bool
  | .finite m e, .finite m' e' =>
    m * Nat.pow 10 (e - min e e').toNat == m' * Nat.pow 10 (e' - min e e').toNat
  | .inf a, .inf b => a == b
  | _, _ => false

/-- The exact value of a double: `m * 2 ^ e` is `m * 5 ^ (-e) * 10 ^ e`. -/
def Binary64.value : Binary64 → NumVal
  | .finite neg m e =>
    let v : Int := if neg then -(m : Int) else m
    if 0 ≤ e then .finite (v * Nat.pow 2 e.toNat) 0 else .finite (v * Nat.pow 5 (-e).toNat) e
  | .inf neg => .inf neg
  | .nan => .nan

def PyFloat.value (f : PyFloat) : NumVal := f.bits.value

/-- The real and imaginary parts of a numeric constant; `bool` is an `int`. -/
def Const.number? : Const → Option (NumVal × NumVal)
  | .bool b => some (.finite (if b then 1 else 0) 0, .finite 0 0)
  | .int i => some (.finite i 0, .finite 0 0)
  | .float f => some (f.value, .finite 0 0)
  | .complex re im => some (re.value, im.value)
  | _ => none

/-- Python's `a == b` on constants: numbers by value across `bool`, `int`, `float`
and `complex`, every other kind only with its own kind. -/
def Const.pyEq (a b : Const) : Bool :=
  match a.number?, b.number? with
  | some (x, y), some (x', y') => x.eq x' && y.eq y'
  | _, _ =>
    match a, b with
    | .pyNone, .pyNone | .ellipsis, .ellipsis => true
    | .str s, .str t => s == t
    | .bytes s, .bytes t => s == t
    | _, _ => false

inductive PyVal where
  | const (c : Const)
  | list (items : List PyVal)
  | dict (items : List (PyVal × PyVal))
  deriving Repr, Inhabited

inductive PyError where
  | indexError (msg : String)
  | attributeError (msg : String)
  | typeError (msg : String)
  | valueError (msg : String)
  deriving DecidableEq, Repr

/-- `sys.get_int_max_str_digits()`: an int of more decimal digits has no `repr`, and
no decimal text of more digits is read as an int. -/
def maxStrDigits : Nat := 4300

def intFits (i : Int) : Bool := decide ((Nat.toDigits 10 i.natAbs).length ≤ maxStrDigits)

def intStrError : PyError :=
  .valueError ("Exceeds the limit (4300 digits) for integer string conversion; " ++
    "use sys.set_int_max_str_digits() to increase the limit")

/-- `int.__repr__`. -/
def intRepr (i : Int) : Except PyError String :=
  if intFits i then .ok (toString i) else .error intStrError

theorem intRepr_ok {i : Int} {t : String} (h : intRepr i = .ok t) :
    intFits i = true ∧ toString i = t := by
  unfold intRepr at h
  split at h
  · exact ⟨by assumption, Except.ok.inj h⟩
  · cases h

def Const.typeName : Const → String
  | .pyNone => "NoneType"
  | .bool _ => "bool"
  | .int _ => "int"
  | .float _ => "float"
  | .complex .. => "complex"
  | .str _ => "str"
  | .bytes _ => "bytes"
  | .ellipsis => "ellipsis"

def PyVal.typeName : PyVal → String
  | .const c => c.typeName
  | .list _ => "list"
  | .dict _ => "dict"

/-- Store `v` under the hashable key `c`: over the entry whose key is `==` to `c`,
keeping that key, or at the end. -/
def insertConst : List (PyVal × PyVal) → Const → PyVal → List (PyVal × PyVal)
  | [], c, v => [(.const c, v)]
  | (.const d, w) :: rest, c, v =>
    if d.pyEq c then (.const d, v) :: rest else (.const d, w) :: insertConst rest c v
  | e :: rest, c, v => e :: insertConst rest c v

/-- `d[k] = v` for keys that compare as their Lean values do (`str` or `None`). -/
def dictSet {α β : Type} [DecidableEq α] : List (α × β) → α → β → List (α × β)
  | [], k, v => [(k, v)]
  | (k', w) :: rest, k, v => if k' = k then (k', v) :: rest else (k', w) :: dictSet rest k v

theorem dictSet_lookup {α β : Type} [DecidableEq α] [BEq α] [LawfulBEq α]
    (c : List (α × β)) (k k' : α) (v : β) :
    (dictSet c k v).lookup k' = if k' = k then some v else c.lookup k' := by
  induction c with
  | nil => by_cases h : k' = k <;> simp [dictSet, List.lookup_cons, List.lookup_nil, h, beq_eq_false_iff_ne.mpr]
  | cons e rest ih =>
    obtain ⟨k'', w⟩ := e
    by_cases h1 : k'' = k <;> by_cases h2 : k' = k <;>
      simp_all [dictSet, List.lookup_cons, beq_eq_false_iff_ne.mpr, Ne.symm]

theorem dictSet_fresh {α β : Type} [DecidableEq α] {c : List (α × β)} {k : α} (v : β)
    (h : k ∉ c.map Prod.fst) : dictSet c k v = c ++ [(k, v)] := by
  induction c with
  | nil => rfl
  | cons e rest ih =>
    simp only [List.map_cons, List.mem_cons, not_or] at h
    simp only [dictSet, if_neg (Ne.symm h.1), ih h.2, List.cons_append]

/-- `d[k] = v`: lists and dicts are unhashable. -/
def setItem (items : List (PyVal × PyVal)) (k v : PyVal) : Except PyError (List (PyVal × PyVal)) :=
  match k with
  | .const c => pure (insertConst items c v)
  | _ => throw (.typeError ("unhashable type: " ++ "\x27" ++ k.typeName ++ "\x27"))

/-- `d.get(k)` for a hashable key: the value of the entry whose key is `==` to `k`. -/
def dictGet (items : List (PyVal × PyVal)) (k : Const) : Option PyVal :=
  (items.find? fun kv => match kv.1 with
    | .const c => c.pyEq k
    | _ => false).map Prod.snd

/-- The items `for x in v` takes: a list's elements, a dict's keys, a string's
characters and a bytes object's ints. Any other value is not iterable. -/
def PyVal.iter : PyVal → Except PyError (List PyVal)
  | .list items => pure items
  | .dict items => pure (items.map Prod.fst)
  | .const (.str s) => pure (s.toList.map fun c => .const (.str (String.singleton c)))
  | .const (.bytes b) => pure (b.map fun x => .const (.int x.toNat))
  | v => throw (.typeError ("\x27" ++ v.typeName ++ "\x27 object is not iterable"))

end Restflow.Python

namespace Restflow

theorem bind_ok {ε α β : Type} {x : Except ε α} {f : α → Except ε β} {b : β} :
    x >>= f = .ok b ↔ ∃ a, x = .ok a ∧ f a = .ok b := by
  cases x <;> simp [bind, Except.bind]

@[simp] theorem ok_bind {ε α β : Type} (a : α) (f : α → Except ε β) :
    (Except.ok a >>= f) = f a := rfl

theorem pure_ok {ε α : Type} {a b : α} : (pure a : Except ε α) = .ok b ↔ a = b := by
  simp [pure, Except.pure]

theorem map_ok {ε α β : Type} {x : Except ε α} {f : α → β} {b : β} :
    x.map f = .ok b ↔ ∃ a, x = .ok a ∧ f a = b := by
  cases x <;> simp [Except.map]

end Restflow
