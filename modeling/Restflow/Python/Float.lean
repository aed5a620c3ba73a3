import Mathlib.Data.List.Basic

/-!
# Python floats

An IEEE 754 double, `float(text)` on a decimal numeral (the nearest double, ties to an
even significand) and `float.__repr__` (the shortest numeral that reads back as the
double, laid out as `format_float_short` does for the `r` format).
-/

namespace Restflow.Python

/-- `(-1) ^ neg * man * 2 ^ exp`; zero and the subnormals have `exp = -1074`. -/
inductive Binary64 where
  | finite (neg : Bool) (man : Nat) (exp : Int)
  | inf (neg : Bool)
  | nan
  deriving DecidableEq, Repr

def Binary64.negate : Binary64 → Binary64
  | .finite neg m e => .finite (!neg) m e
  | .inf neg => .inf (!neg)
  | .nan => .nan

@[simp] theorem Binary64.negate_negate (x : Binary64) : x.negate.negate = x := by
  cases x <;> simp [negate]

def digitsValue (cs : List Char) : Nat :=
  cs.foldl (fun n c => 10 * n + (c.toNat - '0'.toNat)) 0

theorem digitChar_facts : ∀ n, n < 10 →
    (Nat.digitChar n).isDigit = true ∧ (Nat.digitChar n).toNat - '0'.toNat = n ∧
      (Nat.digitChar n = '0' → n = 0) := by decide

theorem digitsValue_append (cs : List Char) (c : Char) :
    digitsValue (cs ++ [c]) = 10 * digitsValue cs + (c.toNat - '0'.toNat) := by
  simp [digitsValue, List.foldl_append]

theorem toDigitsCore_succ (fuel n : Nat) (ds : List Char) :
    Nat.toDigitsCore 10 (fuel + 1) n ds = if n / 10 = 0 then Nat.digitChar (n % 10) :: ds
      else Nat.toDigitsCore 10 fuel (n / 10) (Nat.digitChar (n % 10) :: ds) := rfl

theorem toDigitsCore_spec : ∀ (fuel n : Nat) (ds : List Char), n < fuel →
    ∃ d rest, Nat.toDigitsCore 10 fuel n ds = d :: rest ++ ds ∧
      (d :: rest).all Char.isDigit = true ∧ (d = '0' → n = 0 ∧ rest = []) ∧
      digitsValue (d :: rest) = n
  | 0, _, _, h => absurd h (Nat.not_lt_zero _)
  | fuel + 1, n, ds, h => by
    obtain ⟨hd, hv, hz⟩ := digitChar_facts (n % 10) (Nat.mod_lt _ (by decide))
    rw [toDigitsCore_succ]
    split
    case isTrue h0 =>
      refine ⟨_, [], rfl, by simpa using hd, fun h => ⟨by have := hz h; omega, rfl⟩, ?_⟩
      rw [show digitsValue [Nat.digitChar (n % 10)] = (Nat.digitChar (n % 10)).toNat - '0'.toNat by
        simp [digitsValue], hv]
      omega
    case isFalse h0 =>
      obtain ⟨d, rest, he, hall, hdz, hval⟩ := toDigitsCore_spec fuel (n / 10) _ (by omega)
      refine ⟨d, rest ++ [Nat.digitChar (n % 10)], by rw [he]; simp, ?_,
        fun h => absurd (hdz h).1 h0, ?_⟩
      · simp only [List.all_cons, List.all_append, List.all_nil] at hall ⊢
        simp [hall, hd]
      · rw [← List.cons_append, digitsValue_append, hval, hv]
        omega

theorem toDigits_spec (n : Nat) :
    ∃ d rest, Nat.toDigits 10 n = d :: rest ∧ (d :: rest).all Char.isDigit = true ∧
      (d = '0' → n = 0 ∧ rest = []) ∧ digitsValue (d :: rest) = n := by
  obtain ⟨d, rest, h, hall, hz, hv⟩ := toDigitsCore_spec (n + 1) n [] (Nat.lt_succ_self n)
  exact ⟨d, rest, by rw [show Nat.toDigits 10 n = Nat.toDigitsCore 10 (n + 1) n [] from rfl, h,
    List.append_nil], hall, hz, hv⟩

theorem isDigit_of_mem_toDigits {n : Nat} {c : Char} (h : c ∈ Nat.toDigits 10 n) :
    c.isDigit = true := by
  obtain ⟨d, rest, hds, hall, -, -⟩ := toDigits_spec n
  rw [hds] at h
  exact List.all_eq_true.mp hall c h

def roundHalfEven (a d : Nat) : Nat :=
  if d < 2 * (a % d) ∨ (2 * (a % d) = d ∧ a / d % 2 = 1) then a / d + 1 else a / d

/-- `⌊log_b (a / d)⌋` for positive `a` and `d`: `a` and `d` have `e` digits between
them in base `b`, so the quotient lies between `b ^ (e - 1)` and `b ^ (e + 1)`. -/
def logRatio (b a d : Nat) : Int :=
  let e : Int := ((Nat.toDigits b a).length : Int) - (Nat.toDigits b d).length
  let below := if 0 ≤ e then decide (a < d * Nat.pow b e.toNat)
    else decide (a * Nat.pow b (-e).toNat < d)
  if below then e - 1 else e

/-- The double nearest `a / d` with the sign `neg`: the significand is taken at the
exponent of the binade, or at `-1074` below the normal range; a significand rounded up
to `2 ^ 53` carries into the exponent, and past `2 ^ 971 * (2 ^ 53 - 1)` it is `inf`. -/
def Binary64.round (neg : Bool) (a d : Nat) : Binary64 :=
  if a = 0 then .finite neg 0 (-1074) else
  let shift := max (logRatio 2 a d - 52) (-1074)
  let m := if shift < 0 then roundHalfEven (a <<< (-shift).toNat) d
    else roundHalfEven a (d <<< shift.toNat)
  let (m, shift) := if m = 1 <<< 53 then (1 <<< 52, shift + 1) else (m, shift)
  if 971 < shift then .inf neg else .finite neg m shift

/-- `m * 10 ^ e` with the sign `neg`. A numeral with more than 310 digits before the
point is past every double, and one whose digits start more than 330 places after it
rounds to zero, so neither needs its power of ten. -/
def Binary64.ofDecimal (neg : Bool) (m : Nat) (e : Int) : Binary64 :=
  let n : Int := (Nat.toDigits 10 m).length
  if m = 0 ∨ n + e < -330 then .finite neg 0 (-1074)
  else if 310 < n + e then .inf neg
  else if 0 ≤ e then round neg (m * Nat.pow 10 e.toNat) 1
  else round neg m (Nat.pow 10 (-e).toNat)

/-- The significand's digits and the exponent of `digits (. digits)? ([eE] [+-]? digits)?`. -/
def decimalParts (cs : List Char) : Nat × Int :=
  let rest := cs.dropWhile Char.isDigit
  let frac := match rest with
    | '.' :: r => r.takeWhile Char.isDigit
    | _ => []
  let exp : Int := match rest.dropWhile (fun c => c == '.' || c.isDigit) with
    | _ :: '-' :: ds => -(digitsValue ds : Int)
    | _ :: '+' :: ds => digitsValue ds
    | _ :: ds => digitsValue ds
    | [] => 0
  (digitsValue (cs.takeWhile Char.isDigit ++ frac), exp - frac.length)

/-- `float(text)` on a numeral with at most one leading minus, `inf` or `nan`. -/
def Binary64.ofText : List Char → Binary64
  | '-' :: cs => (ofText cs).negate
  | cs =>
    if cs = "inf".toList then .inf false
    else if cs = "nan".toList then .nan
    else ofDecimal false (decimalParts cs).1 (decimalParts cs).2

@[simp] theorem Binary64.ofText_minus (cs : List Char) :
    ofText ('-' :: cs) = (ofText cs).negate := by
  rw [ofText]

/-- The `k`-digit numeral `c * 10 ^ s` nearest `a / d` (ties to an even `c`), the one
on its other side, and `s`. -/
def nearestDigits (a d k : Nat) : Nat × Nat × Int :=
  let s := logRatio 10 a d - k + 1
  let num := if 0 ≤ s then a else a * Nat.pow 10 (-s).toNat
  let den := if 0 ≤ s then d * Nat.pow 10 s.toNat else d
  let c := roundHalfEven num den
  (c, if c = num / den then c + 1 else num / den, s)

/-- `_Py_dg_dtoa` in mode 0 for the positive double `x` of value `a / d`: from `k`
digits on, the first length at which a numeral reads back as `x`, the nearer one if
both do. Seventeen digits always read back, so the nearest is taken there. -/
def shortestDigits (x : Binary64) (a d : Nat) : Nat → Nat → Nat × Int
  | k, 0 => ((nearestDigits a d k).1, (nearestDigits a d k).2.2)
  | k, fuel + 1 =>
    let (c, c', s) := nearestDigits a d k
    if Binary64.ofDecimal false c s = x then (c, s)
    else if Binary64.ofDecimal false c' s = x then (c', s)
    else shortestDigits x a d (k + 1) fuel

/-- `%+.02d`: the exponent's sign, then two digits or more. -/
def exponentText (e : Int) : List Char :=
  (if e < 0 then '-' else '+') ::
    ((if e.natAbs < 10 then ['0'] else []) ++ Nat.toDigits 10 e.natAbs)

/-- `format_float_short` for `repr`: the digits `ds` with the point after `decpt` of
them, in exponent form when `decpt ≤ -4` or `16 < decpt`. -/
def reprDigits (ds : List Char) (decpt : Int) : List Char :=
  if decpt ≤ -4 ∨ 16 < decpt then
    ds.take 1 ++ (if ds.drop 1 = [] then [] else '.' :: ds.drop 1) ++ 'e' :: exponentText (decpt - 1)
  else if decpt ≤ 0 then '0' :: '.' :: (List.replicate (-decpt).toNat '0' ++ ds)
  else if decpt < ds.length then ds.take decpt.toNat ++ '.' :: ds.drop decpt.toNat
  else ds ++ List.replicate (decpt.toNat - ds.length) '0' ++ ['.', '0']

def magnitudeText (man : Nat) (exp : Int) : List Char :=
  if man = 0 then "0.0".toList else
  let a := if 0 ≤ exp then man * Nat.pow 2 exp.toNat else man
  let d := if 0 ≤ exp then 1 else Nat.pow 2 (-exp).toNat
  let cs := shortestDigits (.finite false man exp) a d 1 16
  let ds := Nat.toDigits 10 cs.1
  reprDigits (ds.reverse.dropWhile (· == '0')).reverse (ds.length + cs.2)

/-- `float.__repr__`. -/
def Binary64.reprChars : Binary64 → List Char
  | .finite neg man exp => (if neg then ['-'] else []) ++ magnitudeText man exp
  | .inf neg => (if neg then ['-'] else []) ++ "inf".toList
  | .nan => "nan".toList

theorem reprDigits_head {ds : List Char} (h : ∀ c ∈ ds, c.isDigit = true) (decpt : Int) :
    ∀ c ∈ (reprDigits ds decpt).head?, c ≠ '-' ∧ c ≠ 'n' := by
  cases ds with
  | nil =>
    unfold reprDigits
    split_ifs <;> simp [List.head?_replicate]
    rintro c (⟨-, rfl⟩ | ⟨-, rfl⟩) <;> decide
  | cons d ds =>
    have hd : d ≠ '-' ∧ d ≠ 'n' := by
      have := h d (List.mem_cons_self d ds)
      constructor <;> rintro rfl <;> simp at this
    unfold reprDigits
    split_ifs with h1 h2 h3 h4
    · simpa using hd
    · simpa using hd
    · simp
    · obtain ⟨k, hk⟩ : ∃ k, decpt.toNat = k + 1 := ⟨decpt.toNat - 1, by omega⟩
      rw [hk, List.take_succ_cons]
      simpa using hd
    · simpa using hd

theorem magnitudeText_head (man : Nat) (exp : Int) :
    ∀ c ∈ (magnitudeText man exp).head?, c ≠ '-' ∧ c ≠ 'n' := by
  unfold magnitudeText
  split
  · simp
  · exact reprDigits_head (fun c hc => isDigit_of_mem_toDigits
      (List.mem_reverse.mp ((List.dropWhile_sublist _).subset (List.mem_reverse.mp hc)))) _

end Restflow.Python
