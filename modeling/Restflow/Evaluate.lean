import Mathlib.Data.List.Forall2
import Restflow.Dataset
import Restflow.Runtime

/-!
# `evaluate`

The loop of `evaluate` over the raw results of the native runner, with Python's `+`
and `/` on the running sums as a parameter (`Arith`): what every summary it returns
says of its results (`evaluate_summary`, `evaluate_total`, `evaluate_exactMatch`).
-/

namespace Restflow

open Python

mutual
/-- `a == b`: constants by `Const.pyEq`, lists element by element, and dicts when they
have as many entries and each key of the first maps, in the second, to an equal
value. The actual and the expected value come from two sources and share no object,
so the identity shortcut of list and dict comparison never applies. -/
def Python.PyVal.pyEq : PyVal → PyVal → Bool
  | .const a, .const b => a.pyEq b
  | .list xs, .list ys => Python.PyVal.pyEqList xs ys
  | .dict xs, .dict ys => xs.length == ys.length && Python.PyVal.pyEqItems xs ys
  | _, _ => false
def Python.PyVal.pyEqList : List PyVal → List PyVal → Bool
  | [], [] => true
  | x :: xs, y :: ys => x.pyEq y && Python.PyVal.pyEqList xs ys
  | _, _ => false
def Python.PyVal.pyEqItems : List (PyVal × PyVal) → List (PyVal × PyVal) → Bool
  | [], _ => true
  | (.const k, v) :: xs, ys =>
    (match dictGet ys k with
     | some w => v.pyEq w
     | none => false) && Python.PyVal.pyEqItems xs ys
  | _ :: _, _ => false
end

/-- `m * 10 ^ e >= 0.5`: for `e ≥ 0` both sides are compared as integers. -/
def Python.NumVal.geHalf : NumVal → Bool
  | .finite m e => if 0 ≤ e then decide (1 ≤ m) else decide ((Nat.pow 10 (-e).toNat : Int) ≤ 2 * m)
  | .inf neg => !neg
  | .nan => false

/-- `score >= 0.5`: a `bool`, an `int` or a `float` compares by value, anything else
raises. -/
def geHalf : PyVal → Except PyError Bool
  | .const (.bool b) => .ok b
  | .const (.int i) => .ok (decide (1 ≤ i))
  | .const (.float f) => .ok f.value.geHalf
  | v => .error (.typeError
      ("\x27>=\x27 not supported between instances of \x27" ++ v.typeName ++ "\x27 and \x27float\x27"))

theorem geHalf_value_zero (neg : Bool) (e : Int) : (Binary64.finite neg 0 e).value.geHalf = false := by
  have hpos : 0 < Nat.pow 10 (-e).toNat := Nat.pos_pow_of_pos _ (by decide)
  have hv : (Binary64.finite neg 0 e).value = if 0 ≤ e then .finite 0 0 else .finite 0 e := by
    cases neg <;> simp [Binary64.value]
  rw [hv]
  split
  · rfl
  · show (if 0 ≤ e then decide (1 ≤ (0 : Int)) else decide ((Nat.pow 10 (-e).toNat : Int) ≤ 2 * 0)) = false
    rw [if_neg (by assumption)]
    exact decide_eq_false (by omega)

def floatZero : PyFloat := ⟨.finite false 0 (-1074), by decide, by decide⟩

/-- `1.0`, that is `2 ^ 52 * 2 ^ (-52)`. -/
def floatOne : PyFloat := ⟨.finite false 4503599627370496 (-52), by decide, by decide⟩

def exactMatch (actual expected : PyVal) : PyVal :=
  .const (.float (if actual.pyEq expected then floatOne else floatZero))

theorem geHalf_exactMatch (actual expected : PyVal) :
    geHalf (exactMatch actual expected) = .ok (actual.pyEq expected) := by
  have hone : floatOne.value.geHalf = true := by decide
  have hzero : floatZero.value.geHalf = false := geHalf_value_zero false (-1074)
  unfold exactMatch
  cases actual.pyEq expected
  · exact congrArg Except.ok hzero
  · exact congrArg Except.ok hone

structure EvalResult where
  exampleId : PyVal
  input : PyVal
  expected : PyVal
  actual : PyVal
  score : PyVal
  passed : Bool
  latencyMs : PyVal
  tokensUsed : PyVal
  cost : PyVal
  error : PyVal

structure EvalSummary where
  total : Nat
  passed : Nat
  failed : Int
  accuracy : PyVal
  avgLatencyMs : PyVal
  totalTokens : PyVal
  totalCost : PyVal
  results : List EvalResult

/-- The loop's running values: `results`, `total_passed`, `total_latency`,
`total_tokens` and `total_cost`. -/
structure Totals where
  results : List EvalResult
  passed : Nat
  latency : PyVal
  tokens : PyVal
  cost : PyVal

def Totals.init : Totals := ⟨[], 0, .const (.float floatZero), .const (.int 0), .const (.float floatZero)⟩

/-- Python's `a + b` and `a / b` on the values the loop meets. -/
structure Arith where
  add : PyVal → PyVal → Except PyError PyVal
  div : PyVal → PyVal → Except PyError PyVal

abbrev Scorer := PyVal → PyVal → Except PyError PyVal

/-- The scorer `evaluate` defines when it is given none, whose body is `exact_match`'s. -/
def defaultScorer : Scorer := fun actual expected => .ok (exactMatch actual expected)

/-- `raw.get`: only a dict has that method. -/
def rawItems : PyVal → Except PyError (List (PyVal × PyVal))
  | .dict items => .ok items
  | raw => .error (.attributeError ("\x27" ++ raw.typeName ++ "\x27 object has no attribute \x27get\x27"))

/-- `r` is what scoring gives against the example `ex`: its input and expected value
are the example's, its score is the scorer's, and it passed when the score is at
least `0.5`. -/
def EvalResult.Scores (scorer : Scorer) (r : EvalResult) (ex : Example) : Prop :=
  r.input = ex.input ∧ r.expected = ex.expected ∧ scorer r.actual ex.expected = .ok r.score ∧
    geHalf r.score = .ok r.passed

section Loop

variable (arith : Arith) (scorer : Scorer) (examples : List Example)

/-- One turn of `for i, raw in enumerate(raw_results)`. -/
def scoreRaw (i : Nat) (raw : PyVal) (acc : Totals) : Except PyError Totals := do
  let items ← rawItems raw
  let actual := (dictGet items (.str "actual")).getD (.const .pyNone)
  let ex ← pyIndex examples i
  let score ← scorer actual ex.expected
  let passed ← geHalf score
  let result : EvalResult :=
    { exampleId := (dictGet items (.str "example_id")).getD (pyStr (toString i))
      input := ex.input, expected := ex.expected, actual, score, passed
      latencyMs := (dictGet items (.str "latency_ms")).getD (.const (.float floatZero))
      tokensUsed := (dictGet items (.str "tokens_used")).getD (.const (.int 0))
      cost := (dictGet items (.str "cost")).getD (.const (.float floatZero))
      error := (dictGet items (.str "error")).getD (.const .pyNone) }
  let latency ← arith.add acc.latency result.latencyMs
  let tokens ← arith.add acc.tokens result.tokensUsed
  let cost ← arith.add acc.cost result.cost
  pure ⟨acc.results ++ [result], if passed then acc.passed + 1 else acc.passed, latency, tokens, cost⟩

def scoreLoop : Nat → List PyVal → Totals → Except PyError Totals
  | _, [], acc => .ok acc
  | i, raw :: raws, acc => do scoreLoop (i + 1) raws (← scoreRaw arith scorer examples i raw acc)

/-- `x / total if total > 0 else 0.0`. -/
def perResult (x : PyVal) (total : Nat) : Except PyError PyVal :=
  if total > 0 then arith.div x (.const (.int total)) else .ok (.const (.float floatZero))

def summarize (t : Totals) : Except PyError EvalSummary := do
  let total := t.results.length
  let accuracy ← perResult arith (.const (.int t.passed)) total
  let avgLatencyMs ← perResult arith t.latency total
  pure ⟨total, t.passed, (total : Int) - t.passed, accuracy, avgLatencyMs, t.tokens, t.cost, t.results⟩

end Loop

/-- `_run_evaluation(target_name=..., examples=..., max_concurrency=...)`. -/
abbrev Runner := String → String → Nat → Except RuntimeError PyVal

/-- `evaluate(target, dataset, scorer, max_concurrency)`, for the target of name
`targetName`; `scorer` is `none` for the default. -/
def evaluate (arith : Arith) (runEvaluation : Runner) (targetName : String) (dataset : Dataset)
    (scorer : Option Scorer) (maxConcurrency : Nat := 5) : Except RuntimeError EvalSummary := do
  let scorer := scorer.getD defaultScorer
  let examplesJson ← (dumpsCompact (.list (dataset.examples.map Example.toData))).mapError .py
  let rawResults ← runEvaluation targetName examplesJson maxConcurrency
  (do
    let raws ← rawResults.iter
    let t ← scoreLoop arith scorer dataset.examples 0 raws Totals.init
    summarize arith t).mapError .py

theorem mapError_ok {ε ε' α : Type} {x : Except ε α} {f : ε → ε'} {a : α} :
    x.mapError f = .ok a ↔ x = .ok a := by
  cases x <;> simp [Except.mapError]

theorem pyIndex_natCast {α : Type} {xs : List α} {i : Nat} {x : α} (h : pyIndex xs i = .ok x) :
    xs[i]? = some x := by
  rw [pyIndex_natCast_eq] at h
  cases hx : xs[i]? with
  | none => rw [hx] at h; cases h
  | some y => rw [hx] at h; cases h; rfl

theorem EvalResult.Scores.default_exactMatch {r : EvalResult} {ex : Example} (h : r.Scores defaultScorer ex) :
    r.score = exactMatch r.actual r.expected ∧ r.passed = r.actual.pyEq r.expected := by
  obtain ⟨-, hexp, hscore, hpass⟩ := h
  have hscore : r.score = exactMatch r.actual r.expected := hexp ▸ (Except.ok.inj hscore).symm
  rw [hscore, geHalf_exactMatch] at hpass
  exact ⟨hscore, (Except.ok.inj hpass).symm⟩

section Loop

variable {arith : Arith} {scorer : Scorer} {examples : List Example}

theorem scoreRaw_ok {i : Nat} {raw : PyVal} {acc t : Totals}
    (h : scoreRaw arith scorer examples i raw acc = .ok t) :
    ∃ ex r, examples[i]? = some ex ∧ r.Scores scorer ex ∧ t.results = acc.results ++ [r] ∧
      t.passed = if r.passed then acc.passed + 1 else acc.passed := by
  simp only [scoreRaw, bind_ok, pure_ok] at h
  obtain ⟨items, -, ex, hex, score, hscore, passed, hpassed, _, -, _, -, _, -, rfl⟩ := h
  exact ⟨ex, _, pyIndex_natCast hex, ⟨rfl, rfl, hscore, hpassed⟩, rfl, rfl⟩

/-- The loop from index `i` appends one result per raw result, scored against the
examples from `i` on, and counts those that passed. -/
theorem scoreLoop_ok : ∀ {i : Nat} {raws : List PyVal} {acc t : Totals},
    scoreLoop arith scorer examples i raws acc = .ok t →
      ∃ rs, t.results = acc.results ++ rs ∧ t.passed = acc.passed + (rs.filter (·.passed)).length ∧
        rs.length = raws.length ∧ raws.length ≤ examples.length - i ∧
        List.Forall₂ (EvalResult.Scores scorer) rs ((examples.drop i).take raws.length)
  | _, [], _, _, h => by
    cases h
    exact ⟨[], by simp, by simp, rfl, by simp, by simp⟩
  | i, raw :: raws, acc, t, h => by
    obtain ⟨acc', hstep, hloop⟩ := bind_ok.mp h
    obtain ⟨ex, r, hex, hr, hresults, hpassed⟩ := scoreRaw_ok hstep
    obtain ⟨rs, hrs, hcount, hlen, hbound, hpairs⟩ := scoreLoop_ok hloop
    obtain ⟨hi, rfl⟩ := List.getElem?_eq_some_iff.mp hex
    refine ⟨r :: rs, by simp [hrs, hresults], ?_, by simp [hlen], by simp at hbound ⊢; omega, ?_⟩
    · rw [hcount, hpassed]
      cases hp : r.passed <;> simp [List.filter_cons, hp]; omega
    · rw [List.drop_eq_getElem_cons hi, List.length_cons, List.take_succ_cons]
      exact List.Forall₂.cons hr hpairs

theorem summarize_ok {t : Totals} {s : EvalSummary} (h : summarize arith t = .ok s) :
    s.results = t.results ∧ s.total = t.results.length ∧ s.passed = t.passed ∧
      s.failed = (s.total : Int) - s.passed := by
  simp only [summarize, bind_ok, pure_ok] at h
  obtain ⟨_, -, _, -, rfl⟩ := h
  exact ⟨rfl, rfl, rfl, rfl⟩

end Loop

theorem evaluate_ok {arith : Arith} {runEvaluation : Runner} {targetName : String} {ds : Dataset}
    {scorer : Option Scorer} {maxConcurrency : Nat} {s : EvalSummary}
    (h : evaluate arith runEvaluation targetName ds scorer maxConcurrency = .ok s) :
    ∃ text rawResults raws t, dumpsCompact (.list (ds.examples.map Example.toData)) = .ok text ∧
      runEvaluation targetName text maxConcurrency = .ok rawResults ∧ rawResults.iter = .ok raws ∧
      scoreLoop arith (scorer.getD defaultScorer) ds.examples 0 raws Totals.init = .ok t ∧
      summarize arith t = .ok s := by
  simp only [evaluate, bind_ok, mapError_ok] at h
  obtain ⟨text, htext, rawResults, hraw, raws, hraws, t, hloop, hs⟩ := h
  exact ⟨text, rawResults, raws, t, htext, hraw, hraws, hloop, hs⟩

section Summary

variable {arith : Arith} {runEvaluation : Runner} {targetName : String} {ds : Dataset}
  {scorer : Option Scorer} {maxConcurrency : Nat} {s : EvalSummary}

/-- A summary has one result per raw result, scored against the example at its place;
it counts as passed exactly the results that passed, and never fewer than none as
failed. -/
theorem evaluate_summary (h : evaluate arith runEvaluation targetName ds scorer maxConcurrency = .ok s) :
    s.total = s.results.length ∧ s.passed = (s.results.filter (·.passed)).length ∧ 0 ≤ s.failed ∧
      List.Forall₂ (EvalResult.Scores (scorer.getD defaultScorer)) s.results (ds.examples.take s.total) := by
  obtain ⟨_, _, raws, t, -, -, -, hloop, hs⟩ := evaluate_ok h
  obtain ⟨rs, hrs, hcount, hlen, -, hpairs⟩ := scoreLoop_ok hloop
  obtain ⟨hresults, htotal, hpassed, hfailed⟩ := summarize_ok hs
  simp only [Totals.init, List.nil_append, Nat.zero_add, List.drop_zero] at hrs hcount hpairs
  rw [hrs] at hresults htotal
  rw [hcount] at hpassed
  rw [hresults, hpassed, htotal]
  refine ⟨rfl, rfl, ?_, by rw [hlen]; exact hpairs⟩
  have := List.length_filter_le (·.passed) rs
  rw [hfailed, htotal, hpassed]
  omega

/-- Python's `+` and `/` on the cases whose result is an `int`, `0.0` or `1.0` with no
rounding: `m + n` on `int`s, `0.0 + 0.0`, and `0 / n`, `n / n` and `0.0 / n` for an
`int` `n > 0`. On the others, where Python rounds, it raises `ValueError("inexact")`. -/
def exactArith : Arith where
  add
    | .const (.int m), .const (.int n) => .ok (.const (.int (m + n)))
    | .const (.float a), .const (.float b) =>
      if a = floatZero ∧ b = floatZero then .ok (.const (.float floatZero)) else .error (.valueError "inexact")
    | _, _ => .error (.valueError "inexact")
  div
    | .const (.int p), .const (.int n) =>
      if 0 < n ∧ p = 0 then .ok (.const (.float floatZero))
      else if 0 < n ∧ p = n then .ok (.const (.float floatOne))
      else .error (.valueError "inexact")
    | .const (.float a), .const (.int n) =>
      if 0 < n ∧ a = floatZero then .ok (.const (.float floatZero)) else .error (.valueError "inexact")
    | _, _ => .error (.valueError "inexact")

/-- A runner that answers `"4"` and `9` to the two examples of `arithmeticDataset`. -/
def arithmeticRunner : Runner := fun _ _ _ =>
  .ok (.list [.dict [(pyStr "actual", pyStr "4")], .dict [(pyStr "actual", .const (.int 9))]])

theorem arithmeticRun_summary : ∃ s, evaluate exactArith arithmeticRunner "arithmetic" arithmeticDataset none = .ok s ∧
    s.total = s.results.length ∧ s.passed = (s.results.filter (·.passed)).length ∧ 0 ≤ s.failed ∧
      List.Forall₂ (EvalResult.Scores ((none : Option Scorer).getD defaultScorer)) s.results
        (arithmeticDataset.examples.take s.total) :=
  ⟨_, rfl, @evaluate_summary exactArith arithmeticRunner "arithmetic" arithmeticDataset none 5 _ rfl⟩

/-- The runner is given the document `Dataset.save` writes, on one line; the summary
has as many results as the runner returned, and that is never more than there are
examples. -/
theorem evaluate_total (h : evaluate arith runEvaluation targetName ds scorer maxConcurrency = .ok s) :
    ∃ doc text rawResults raws, (PyVal.list (ds.examples.map Example.toData)).toJson? = .ok doc ∧
      ds.save = .ok (String.mk (doc.render 0)) ∧ text = String.mk doc.renderCompact ∧
      runEvaluation targetName text maxConcurrency = .ok rawResults ∧ rawResults.iter = .ok raws ∧
      s.total = raws.length ∧ raws.length ≤ ds.examples.length := by
  obtain ⟨text, rawResults, raws, t, htext, hraw, hraws, hloop, hs⟩ := evaluate_ok h
  obtain ⟨doc, hdoc, rfl⟩ := map_ok.mp htext
  obtain ⟨rs, hrs, -, hlen, hbound, -⟩ := scoreLoop_ok hloop
  obtain ⟨-, htotal, -, -⟩ := summarize_ok hs
  simp only [Totals.init, List.nil_append, Nat.sub_zero] at hrs hbound
  exact ⟨doc, _, rawResults, raws, hdoc, by rw [Dataset.save, dumps_eq, hdoc]; rfl, rfl, hraw, hraws,
    by rw [htotal, hrs, hlen], hbound⟩

theorem arithmeticRun_total : ∃ s, evaluate exactArith arithmeticRunner "arithmetic" arithmeticDataset none = .ok s ∧
    ∃ doc text rawResults raws,
      (PyVal.list (arithmeticDataset.examples.map Example.toData)).toJson? = .ok doc ∧
      arithmeticDataset.save = .ok (String.mk (doc.render 0)) ∧ text = String.mk doc.renderCompact ∧
      arithmeticRunner "arithmetic" text 5 = .ok rawResults ∧ rawResults.iter = .ok raws ∧
      s.total = raws.length ∧ raws.length ≤ arithmeticDataset.examples.length :=
  ⟨_, rfl, @evaluate_total exactArith arithmeticRunner "arithmetic" arithmeticDataset none 5 _ rfl⟩

/-- With the default scorer, each result's score is `exact_match` of its values, it
passed exactly when its actual value `==` its expected one, and the summary counts
those results. -/
theorem evaluate_exactMatch (h : evaluate arith runEvaluation targetName ds none maxConcurrency = .ok s) :
    (∀ r ∈ s.results, r.score = exactMatch r.actual r.expected ∧ r.passed = r.actual.pyEq r.expected) ∧
      s.passed = (s.results.filter fun r => r.actual.pyEq r.expected).length := by
  obtain ⟨_, _, raws, t, -, -, -, hloop, hs⟩ := evaluate_ok h
  obtain ⟨rs, hrs, hcount, -, -, hpairs⟩ := scoreLoop_ok hloop
  obtain ⟨hresults, -, hpassed, -⟩ := summarize_ok hs
  simp only [Totals.init, List.nil_append, Nat.zero_add] at hrs hcount
  have scored : ∀ r ∈ rs, r.score = exactMatch r.actual r.expected ∧ r.passed = r.actual.pyEq r.expected :=
    ((List.forall₂_and_left _ _).mp (hpairs.imp fun _ _ h => ⟨h.default_exactMatch, h⟩)).1
  rw [hresults, hrs, hpassed, hcount]
  exact ⟨scored, congrArg List.length (List.filter_congr fun r hr => (scored r hr).2)⟩

theorem arithmeticRun_exactMatch : ∃ s, evaluate exactArith arithmeticRunner "arithmetic" arithmeticDataset none = .ok s ∧
    (∀ r ∈ s.results, r.score = exactMatch r.actual r.expected ∧ r.passed = r.actual.pyEq r.expected) ∧
      s.passed = (s.results.filter fun r => r.actual.pyEq r.expected).length :=
  ⟨_, rfl, @evaluate_exactMatch exactArith arithmeticRunner "arithmetic" arithmeticDataset 5 _ rfl⟩

/-- `2 ** 60 == 1.152921504606847e+18` and `10 ** 23 != 1e23`: an `int` and a `float`
are compared by their exact values. -/
example : PyVal.pyEq (.const (.int (Nat.pow 2 60)))
    (.const (.float ⟨.finite false 4503599627370496 8, by decide, by decide⟩)) = true := rfl

example : PyVal.pyEq (.const (.int (Nat.pow 10 23)))
    (.const (.float ⟨.finite false 5960464477539062 24, by decide, by decide⟩)) = false := rfl

example : (evaluate exactArith arithmeticRunner "arithmetic" arithmeticDataset none).map
    (fun s => (s.total, s.passed, s.failed)) = .ok (2, 2, 0) := rfl

end Summary

end Restflow
