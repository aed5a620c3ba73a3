import Restflow.Json.Reader

/-!
# What `json.dumps` makes of a config value

When `json.dumps` writes a value (`PyVal.jsonOk`), which number tokens it writes,
and how a value whose dict keys are all `str` is read back from its document.
-/

namespace Restflow

open Python

def Python.PyFloat.isFinite (f : PyFloat) : Bool :=
  f.repr != "inf" && f.repr != "-inf" && f.repr != "nan"

/-- The constants `json.dumps` writes: an int of at most 4300 digits, and in strict
mode no infinite or NaN float. -/
def Python.Const.jsonOk (strict : Bool) : Const → Bool
  | .str _ | .pyNone | .bool _ => true
  | .int i => intFits i
  | .float f => !strict || f.isFinite
  | _ => false

/-- The dict keys `_iterencode_dict` turns into strings. -/
def Python.PyVal.keyOk : PyVal → Bool
  | .const (.str _) | .const (.float _) | .const (.bool _) | .const .pyNone => true
  | .const (.int i) => intFits i
  | _ => false

mutual
def Python.PyVal.jsonOk (strict : Bool) : PyVal → Bool
  | .const c => c.jsonOk strict
  | .list vs => Python.PyVal.jsonOkList strict vs
  | .dict items => Python.PyVal.jsonOkItems strict items
def Python.PyVal.jsonOkList (strict : Bool) : List PyVal → Bool
  | [] => true
  | v :: vs => v.jsonOk strict && Python.PyVal.jsonOkList strict vs
def Python.PyVal.jsonOkItems (strict : Bool) : List (PyVal × PyVal) → Bool
  | [] => true
  | (k, v) :: items => k.keyOk && v.jsonOk strict && Python.PyVal.jsonOkItems strict items
end

mutual
/-- Every dict key, at any depth, is a `str`. -/
def Python.PyVal.strKeys : PyVal → Bool
  | .const _ => true
  | .list vs => Python.PyVal.strKeysList vs
  | .dict items => Python.PyVal.strKeysItems items
def Python.PyVal.strKeysList : List PyVal → Bool
  | [] => true
  | v :: vs => v.strKeys && Python.PyVal.strKeysList vs
def Python.PyVal.strKeysItems : List (PyVal × PyVal) → Bool
  | [] => true
  | (.const (.str _), v) :: items => v.strKeys && Python.PyVal.strKeysItems items
  | _ :: _ => false
end

theorem toString_int_toList (i : Int) :
    (toString i).toList = (if i < 0 then ['-'] else []) ++ Nat.toDigits 10 i.natAbs := by
  cases i with
  | ofNat m => rfl
  | negSucc m =>
    rw [if_pos (Int.negSucc_lt_zero m)]
    rfl

theorem isNumber_digits {d : Char} {rest : List Char} (hall : (d :: rest).all Char.isDigit = true)
    (hz : d = '0' → rest = []) : isNumber (d :: rest) = true ∧ isNumber ('-' :: d :: rest) = true := by
  have hbody : (intPartOk ((d :: rest).takeWhile Char.isDigit) &&
      fracExpOk ((d :: rest).dropWhile Char.isDigit)) = true := by
    rw [List.takeWhile_eq_self_iff.mpr (by simpa using hall),
      List.dropWhile_eq_nil_iff.mpr (by simpa using hall)]
    simp only [List.all_cons, Bool.and_eq_true] at hall
    by_cases h0 : d = '0'
    · rw [h0, hz h0]; rfl
    · simp [intPartOk, fracExpOk, expPartOk, hall.1, hall.2, h0]
  refine ⟨?_, by rw [isNumber_minus]; exact hbody⟩
  rw [isNumber_of_head]
  · exact hbody
  · intro h
    simp only [List.head?_cons, Option.some.injEq] at h
    subst h
    simp at hall

theorem numberOk_int (lenient : Bool) (i : Int) : numberOk lenient (toString i) = true := by
  obtain ⟨d, rest, hds, hall, hz, -⟩ := toDigits_spec i.natAbs
  have h := isNumber_digits hall fun h => (hz h).2
  simp only [numberOk, toString_int_toList, hds, Bool.or_eq_true]
  split <;> simp [h.1, h.2]

theorem numberOk_float (strict : Bool) {f : PyFloat} (h : (Const.float f).jsonOk strict = true) :
    numberOk (!strict) (floatstr f) = true := by
  simp only [Const.jsonOk, Bool.or_eq_true, Bool.not_eq_true', PyFloat.isFinite, Bool.and_eq_true,
    bne_iff_ne, ne_eq] at h
  unfold floatstr
  by_cases hn : f.repr = "nan"
  · rw [if_pos hn]
    rcases h with rfl | h
    · rfl
    · exact absurd hn h.2
  by_cases hi : f.repr = "inf"
  · rw [if_neg hn, if_pos hi]
    rcases h with rfl | h
    · rfl
    · exact absurd hi h.1.1
  by_cases hm : f.repr = "-inf"
  · rw [if_neg hn, if_neg hi, if_pos hm]
    rcases h with rfl | h
    · rfl
    · exact absurd hm h.1.2
  rw [if_neg hn, if_neg hi, if_neg hm]
  have hv : floatReprOk f.repr.toList = true := f.valid
  simp only [floatReprOk, Bool.or_eq_true, beq_iff_eq, Bool.and_eq_true] at hv
  rcases hv with ((hv | hv) | hv) | ⟨hv, -⟩
  · exact absurd (String.ext hv) hi
  · exact absurd (String.ext hv) hm
  · exact absurd (String.ext hv) hn
  · simp only [numberOk, hv, Bool.true_or]

theorem Python.Const.toJson?_of_jsonOk {strict : Bool} {c : Const} (h : c.jsonOk strict = true) :
    ∃ j, c.toJson? = .ok j ∧ j.numbersOk (!strict) = true := by
  cases c with
  | int i => exact ⟨.number (toString i),
      by simp [Const.toJson?, intRepr, show intFits i = true from h]; rfl, numberOk_int _ i⟩
  | float f => exact ⟨_, rfl, numberOk_float strict h⟩
  | complex | bytes | ellipsis => simp [Const.jsonOk] at h
  | _ => exact ⟨_, rfl, rfl⟩

theorem keyText?_of_keyOk {k : PyVal} (h : k.keyOk = true) : ∃ t, keyText? k = .ok t := by
  match k, h with
  | .const (.str _), _ | .const (.float _), _ | .const (.bool true), _ | .const (.bool false), _
  | .const .pyNone, _ => exact ⟨_, rfl⟩
  | .const (.int i), h => exact ⟨_, by simp [keyText?, intRepr, show intFits i = true from h]; rfl⟩

section Dumps

variable {strict : Bool}

mutual
theorem Python.PyVal.toJson?_of_jsonOk : ∀ (v : PyVal), v.jsonOk strict = true →
    ∃ j, v.toJson? = .ok j ∧ j.numbersOk (!strict) = true
  | .const c, h => Const.toJson?_of_jsonOk h
  | .list vs, h => by
    obtain ⟨js, hjs, hn⟩ := Python.PyVal.toJsonList?_of_jsonOk vs h
    exact ⟨.array js, by simp [PyVal.toJson?, hjs], hn⟩
  | .dict items, h => by
    obtain ⟨ms, hms, hn⟩ := Python.PyVal.toJsonItems?_of_jsonOk items h
    exact ⟨.object ms, by simp [PyVal.toJson?, hms], hn⟩
theorem Python.PyVal.toJsonList?_of_jsonOk : ∀ (vs : List PyVal), PyVal.jsonOkList strict vs = true →
    ∃ js, PyVal.toJsonList? vs = .ok js ∧ JsonValue.numbersOkList (!strict) js = true
  | [], _ => ⟨[], rfl, rfl⟩
  | v :: vs, h => by
    simp only [PyVal.jsonOkList, Bool.and_eq_true] at h
    obtain ⟨j, hj, hn⟩ := Python.PyVal.toJson?_of_jsonOk v h.1
    obtain ⟨js, hjs, hns⟩ := Python.PyVal.toJsonList?_of_jsonOk vs h.2
    exact ⟨j :: js, by simp [PyVal.toJsonList?, hj, hjs], by simp [JsonValue.numbersOkList, hn, hns]⟩
theorem Python.PyVal.toJsonItems?_of_jsonOk : ∀ (items : List (PyVal × PyVal)),
    PyVal.jsonOkItems strict items = true →
    ∃ ms, PyVal.toJsonItems? items = .ok ms ∧ JsonValue.numbersOkMembers (!strict) ms = true
  | [], _ => ⟨[], rfl, rfl⟩
  | (k, v) :: items, h => by
    simp only [PyVal.jsonOkItems, Bool.and_eq_true] at h
    obtain ⟨t, ht⟩ := keyText?_of_keyOk h.1.1
    obtain ⟨j, hj, hn⟩ := Python.PyVal.toJson?_of_jsonOk v h.1.2
    obtain ⟨ms, hms, hns⟩ := Python.PyVal.toJsonItems?_of_jsonOk items h.2
    exact ⟨(t, j) :: ms, by simp [PyVal.toJsonItems?, ht, hj, hms],
      by simp [JsonValue.numbersOkMembers, hn, hns]⟩
end

mutual
theorem Python.PyVal.numbersOk_toJson? : ∀ (v : PyVal) {j : JsonValue}, v.toJson? = .ok j →
    j.numbersOk true = true
  | .const c, j, h => by
    cases c with
    | int i =>
      obtain ⟨t, ht, rfl⟩ := map_ok.mp h
      exact (intRepr_ok ht).2 ▸ numberOk_int true i
    | float f => cases h; exact numberOk_float false rfl
    | complex | bytes | ellipsis => cases h
    | _ => cases h; rfl
  | .list vs, j, h => by
    simp only [PyVal.toJson?, bind_ok, pure_ok] at h
    obtain ⟨js, hjs, rfl⟩ := h
    exact Python.PyVal.numbersOk_toJsonList? vs hjs
  | .dict items, j, h => by
    simp only [PyVal.toJson?, bind_ok, pure_ok] at h
    obtain ⟨ms, hms, rfl⟩ := h
    exact Python.PyVal.numbersOk_toJsonItems? items hms
theorem Python.PyVal.numbersOk_toJsonList? : ∀ (vs : List PyVal) {js : List JsonValue},
    PyVal.toJsonList? vs = .ok js → JsonValue.numbersOkList true js = true
  | [], _, h => by cases h; rfl
  | v :: vs, _, h => by
    simp only [PyVal.toJsonList?, bind_ok, pure_ok] at h
    obtain ⟨j, hj, js, hjs, rfl⟩ := h
    simp [JsonValue.numbersOkList, Python.PyVal.numbersOk_toJson? v hj,
      Python.PyVal.numbersOk_toJsonList? vs hjs]
theorem Python.PyVal.numbersOk_toJsonItems? : ∀ (items : List (PyVal × PyVal))
    {ms : List (String × JsonValue)}, PyVal.toJsonItems? items = .ok ms →
    JsonValue.numbersOkMembers true ms = true
  | [], _, h => by cases h; rfl
  | (k, v) :: items, _, h => by
    simp only [PyVal.toJsonItems?, bind_ok, pure_ok] at h
    obtain ⟨t, -, j, hj, ms, hms, rfl⟩ := h
    simp [JsonValue.numbersOkMembers, Python.PyVal.numbersOk_toJson? v hj,
      Python.PyVal.numbersOk_toJsonItems? items hms]
end

end Dumps

/-- The digits of an `int` token, after its minus if it has one. -/
def intDigits : List Char → List Char
  | '-' :: ds => ds
  | ds => ds

/-- An `int` token: digits after an optional minus. -/
def isIntToken (cs : List Char) : Bool :=
  !(intDigits cs).isEmpty && (intDigits cs).all Char.isDigit

def intValue (cs : List Char) : Int :=
  if cs.head? = some '-' then -(digitsValue (intDigits cs) : Int) else digitsValue (intDigits cs)

/-- `float(t)`, or `parse_constant` for `NaN`, `Infinity` and `-Infinity`. The double
is a `PyFloat` when its `repr` reads back as itself, which holds of every double. -/
def floatOfToken (t : String) : Option PyFloat :=
  let x := Binary64.ofText (if t = "NaN" then "nan" else if t = "Infinity" then "inf"
    else if t = "-Infinity" then "-inf" else t).toList
  if h : Binary64.ofText x.reprChars = x ∧ floatReprOk x.reprChars = true then some ⟨x, h.1, h.2⟩
  else none

/-- A number token: an `int` if it has only digits, which `int` refuses past 4300
of them, else a float. -/
def decodeNumber (t : String) : Option Const :=
  if isIntToken t.toList then
    if (intDigits t.toList).length ≤ maxStrDigits then some (.int (intValue t.toList)) else none
  else (floatOfToken t).map .float

mutual
/-- A value from its document, every dict key a `str`. -/
def decodePyVal : JsonValue → Option PyVal
  | .null => some (.const .pyNone)
  | .bool b => some (.const (.bool b))
  | .number t => (decodeNumber t).map .const
  | .string s => some (.const (.str s))
  | .array vs => (decodePyValList vs).map .list
  | .object ms => (decodePyValMembers ms).map .dict
def decodePyValList : List JsonValue → Option (List PyVal)
  | [] => some []
  | v :: vs => (decodePyVal v).bind fun v => (decodePyValList vs).map (v :: ·)
def decodePyValMembers : List (String × JsonValue) → Option (List (PyVal × PyVal))
  | [] => some []
  | (k, v) :: ms => (decodePyVal v).bind fun v => (decodePyValMembers ms).map ((.const (.str k), v) :: ·)
end

theorem decodeNumber_int {i : Int} (hi : intFits i = true) : decodeNumber (toString i) = some (.int i) := by
  obtain ⟨d, rest, hds, hall, -, hv⟩ := toDigits_spec i.natAbs
  have hlen : (d :: rest).length ≤ maxStrDigits := by
    simpa only [intFits, hds, decide_eq_true_eq] using hi
  have hd : d ≠ '-' := by
    rintro rfl
    simp at hall
  simp only [decodeNumber, toString_int_toList, hds]
  by_cases hneg : i < 0
  · simp only [if_pos hneg, List.singleton_append]
    simp only [isIntToken, intDigits, List.isEmpty_cons, Bool.not_false, hall, Bool.and_self,
      ↓reduceIte, hlen, intValue, List.head?_cons, hv, Option.some.injEq, Const.int.injEq]
    omega
  · simp only [if_neg hneg, List.nil_append]
    have hid : intDigits (d :: rest) = d :: rest := by
      unfold intDigits
      split
      · rename_i h; cases h; exact absurd rfl hd
      · rfl
    simp only [isIntToken, hid, List.isEmpty_cons, Bool.not_false, hall, Bool.and_self, ↓reduceIte,
      hlen, intValue, List.head?_cons, Option.some.injEq, hd, hv, Const.int.injEq]
    omega

theorem digit_lt {c : Char} (h : c.isDigit = true) : c.toNat - '0'.toNat < 10 := by
  simp only [Char.isDigit, Bool.and_eq_true, decide_eq_true_eq, Char.le_def] at h
  have : c.val.toNat ≤ 57 := h.2
  show c.val.toNat - 48 < 10
  omega

theorem digitsValue_lt {cs : List Char} (h : ∀ c ∈ cs, c.isDigit = true) :
    digitsValue cs < Nat.pow 10 cs.length := by
  induction cs using List.reverseRecOn with
  | nil => decide
  | append_singleton cs c ih =>
    have hv := ih fun d hd => h d (List.mem_append_left _ hd)
    have hc := digit_lt (h c (List.mem_append_right _ (List.mem_singleton_self c)))
    rw [digitsValue_append, List.length_append, List.length_singleton]
    show _ < Nat.pow 10 cs.length * 10
    omega

theorem toDigitsCore_length_le : ∀ (fuel n k : Nat) (ds : List Char), n < fuel → 0 < k →
    n < Nat.pow 10 k → (Nat.toDigitsCore 10 fuel n ds).length ≤ k + ds.length
  | 0, _, _, _, h, _, _ => absurd h (Nat.not_lt_zero _)
  | fuel + 1, n, k, ds, h, hk, hn => by
    rw [toDigitsCore_succ]
    split
    · simp only [List.length_cons]
      omega
    · obtain ⟨k, rfl⟩ : ∃ k', k = k' + 1 := ⟨k - 1, by omega⟩
      have hn : n < Nat.pow 10 k * 10 := hn
      have hk : 0 < k := Nat.pos_of_ne_zero fun h0 => by
        subst h0
        have : n < 10 := by simpa using hn
        omega
      have := toDigitsCore_length_le fuel (n / 10) k (Nat.digitChar (n % 10) :: ds) (by omega) hk
        (by omega)
      simp only [List.length_cons] at this
      omega

theorem intFits_ofNat {n : Nat} (h : Nat.pow 10 maxStrDigits ≤ n) : intFits (.ofNat n) = false := by
  obtain ⟨d, rest, hd, hall, -, hv⟩ := toDigits_spec n
  have hlt := digitsValue_lt (List.all_eq_true.mp hall)
  rw [hv] at hlt
  show decide ((Nat.toDigits 10 n).length ≤ maxStrDigits) = false
  rw [hd, decide_eq_false_iff_not]
  generalize maxStrDigits = m at *
  intro hle
  have hmono : Nat.pow 10 (d :: rest).length ≤ Nat.pow 10 m := Nat.pow_le_pow_right (by decide) hle
  omega

theorem intFits_intValue {cs : List Char} (ht : isIntToken cs = true)
    (hl : (intDigits cs).length ≤ maxStrDigits) : intFits (intValue cs) = true := by
  simp only [isIntToken, Bool.and_eq_true, Bool.not_eq_true', List.isEmpty_eq_false,
    List.all_eq_true] at ht
  have habs : (intValue cs).natAbs = digitsValue (intDigits cs) := by
    unfold intValue
    split <;> simp
  have hlt := digitsValue_lt ht.2
  have hpos : 0 < (intDigits cs).length := List.length_pos.mpr ht.1
  simp only [intFits, habs, decide_eq_true_eq]
  exact (toDigitsCore_length_le _ _ _ [] (Nat.lt_succ_self _) hpos hlt).trans (by simpa using hl)

theorem mem_intDigits {c : Char} {cs : List Char} (h : c ∈ cs) : c = '-' ∨ c ∈ intDigits cs := by
  unfold intDigits
  split
  · exact List.mem_cons.mp h
  · exact .inr h

theorem PyFloat.eq_of_repr {f g : PyFloat} (h : f.repr = g.repr) : f = g := by
  have hb : f.bits = g.bits := by
    rw [← f.roundTrip, ← g.roundTrip]
    exact congrArg (fun r : String => Binary64.ofText r.toList) h
  cases f; cases g; cases hb; rfl

theorem PyFloat.repr_not_nonFinite (f : PyFloat) : ∀ t ∈ nonFinite, f.repr ≠ t := by
  have hv : floatReprOk f.repr.toList = true := f.valid
  intro t ht he
  rw [he] at hv
  simp only [nonFinite, List.mem_cons, List.mem_singleton, List.not_mem_nil, or_false] at ht
  rcases ht with rfl | rfl | rfl <;> exact absurd hv (by decide)

theorem isIntToken_floatstr (f : PyFloat) : isIntToken (floatstr f).toList = false := by
  have hv : floatReprOk f.repr.toList = true := f.valid
  unfold floatstr
  split_ifs with hn hi hm
  · rfl
  · rfl
  · rfl
  simp only [floatReprOk, Bool.or_eq_true, beq_iff_eq, Bool.and_eq_true, List.any_eq_true] at hv
  rcases hv with ((hv | hv) | hv) | ⟨-, c, hc, hce⟩
  · exact absurd (String.ext hv) hi
  · exact absurd (String.ext hv) hm
  · exact absurd (String.ext hv) hn
  · simp only [isIntToken, Bool.and_eq_false_iff, Bool.not_eq_false', List.all_eq_false]
    right
    rcases mem_intDigits hc with rfl | hc'
    · rcases hce with h | h <;> exact absurd h (by decide)
    · exact ⟨c, hc', by rcases hce with rfl | rfl <;> decide⟩

theorem floatOfToken_floatstr (f : PyFloat) : floatOfToken (floatstr f) = some f := by
  have hnot := PyFloat.repr_not_nonFinite f
  have hspell : (if floatstr f = "NaN" then "nan" else if floatstr f = "Infinity" then "inf"
      else if floatstr f = "-Infinity" then "-inf" else floatstr f) = f.repr := by
    unfold floatstr
    by_cases hn : f.repr = "nan"
    · simp [hn]
    by_cases hi : f.repr = "inf"
    · simp [hi]
    by_cases hm : f.repr = "-inf"
    · simp [hm]
    simp [hn, hi, hm, hnot "NaN" (by decide), hnot "Infinity" (by decide),
      hnot "-Infinity" (by decide)]
  have hb : Binary64.ofText f.repr.toList = f.bits := f.roundTrip
  simp only [floatOfToken, hspell, hb]
  rw [dif_pos ⟨f.roundTrip, f.valid⟩]

theorem decodeNumber_float (f : PyFloat) : decodeNumber (floatstr f) = some (.float f) := by
  simp only [decodeNumber, isIntToken_floatstr, floatOfToken_floatstr]
  rfl

theorem Python.PyVal.strKey_of_strKeysItems {k v : PyVal} {items : List (PyVal × PyVal)}
    (h : PyVal.strKeysItems ((k, v) :: items) = true) :
    ∃ s, k = .const (.str s) ∧ v.strKeys = true ∧ PyVal.strKeysItems items = true := by
  cases k with
  | const c =>
    cases c with
    | str s => simpa [PyVal.strKeysItems] using h
    | _ => simp [PyVal.strKeysItems] at h
  | _ => simp [PyVal.strKeysItems] at h

mutual
theorem decodePyVal_toJson? : ∀ (v : PyVal) {j : JsonValue}, v.strKeys = true →
    v.toJson? = .ok j → decodePyVal j = some v
  | .const c, j, _, h => by
    cases c with
    | int i =>
      obtain ⟨t, ht, rfl⟩ := map_ok.mp h
      obtain ⟨hfit, rfl⟩ := intRepr_ok ht
      simp [decodePyVal, decodeNumber_int hfit]
    | float f => cases h; simp [decodePyVal, decodeNumber_float]
    | complex | bytes | ellipsis => cases h
    | _ => cases h; rfl
  | .list vs, j, hk, h => by
    simp only [PyVal.toJson?, bind_ok, pure_ok] at h
    obtain ⟨js, hjs, rfl⟩ := h
    simp [decodePyVal, decodePyValList_toJsonList? vs hk hjs]
  | .dict items, j, hk, h => by
    simp only [PyVal.toJson?, bind_ok, pure_ok] at h
    obtain ⟨ms, hms, rfl⟩ := h
    simp [decodePyVal, decodePyValMembers_toJsonItems? items hk hms]
theorem decodePyValList_toJsonList? : ∀ (vs : List PyVal) {js : List JsonValue},
    PyVal.strKeysList vs = true → PyVal.toJsonList? vs = .ok js → decodePyValList js = some vs
  | [], _, _, h => by cases h; rfl
  | v :: vs, _, hk, h => by
    simp only [PyVal.strKeysList, Bool.and_eq_true] at hk
    simp only [PyVal.toJsonList?, bind_ok, pure_ok] at h
    obtain ⟨j, hj, js, hjs, rfl⟩ := h
    simp [decodePyValList, decodePyVal_toJson? v hk.1 hj, decodePyValList_toJsonList? vs hk.2 hjs]
theorem decodePyValMembers_toJsonItems? : ∀ (items : List (PyVal × PyVal))
    {ms : List (String × JsonValue)}, PyVal.strKeysItems items = true →
    PyVal.toJsonItems? items = .ok ms → decodePyValMembers ms = some items
  | [], _, _, h => by cases h; rfl
  | (k, v) :: items, _, hk, h => by
    obtain ⟨s, rfl, hv, hitems⟩ := PyVal.strKey_of_strKeysItems hk
    simp only [PyVal.toJsonItems?, bind_ok, pure_ok] at h
    obtain ⟨t, ht, j, hj, ms, hms, rfl⟩ := h
    cases ht
    simp [decodePyValMembers, decodePyVal_toJson? v hv hj,
      decodePyValMembers_toJsonItems? items hitems hms]
end

end Restflow
