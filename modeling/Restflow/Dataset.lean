import Mathlib.Data.List.Forall2
import Restflow.Json.Loads

/-!
# Datasets

`Example` and `Dataset` of `eval.py`, with a file as its text: `save` and `load`
round-trip the datasets `load` can return (`load_save`, `load_loadable`), subsets
compose (`subset_subset`), and `sample(n)` draws distinct examples (`sample_ok`).
-/

namespace Restflow

open Python

structure Example where
  input : PyVal
  expected : PyVal
  metadata : PyVal := .dict []

structure Dataset where
  examples : List Example

/-- `Example(input=item.get("input", {}), expected=item.get("expected"),
metadata=item.get("metadata", {}))`: an item that is not a dict has no `get`. -/
def exampleOf : PyVal → Except PyError Example
  | .dict items => pure
    { input := (dictGet items (.str "input")).getD (.dict [])
      expected := (dictGet items (.str "expected")).getD (.const .pyNone)
      metadata := (dictGet items (.str "metadata")).getD (.dict []) }
  | item => throw (.attributeError ("\x27" ++ item.typeName ++ "\x27 object has no attribute \x27get\x27"))

/-- `Dataset.from_list(items)`: one example for each item `for item in items` takes. -/
def Dataset.fromList (items : PyVal) : Except PyError Dataset := do
  let items ← items.iter
  pure ⟨← items.mapM exampleOf⟩

/-- `Dataset.load(path)` on the file's text; `none` is the `ValueError` of `json.load`. -/
def Dataset.load (text : String) : Option (Except PyError Dataset) :=
  (loads text).map fun data =>
    match data with
    | .list _ => Dataset.fromList data
    | .dict items =>
      match dictGet items (.str "examples") with
      | some examples => Dataset.fromList examples
      | none => throw (.valueError "Invalid dataset format")
    | _ => throw (.valueError "Invalid dataset format")

def Example.toData (ex : Example) : PyVal :=
  .dict [(.const (.str "input"), ex.input), (.const (.str "expected"), ex.expected),
    (.const (.str "metadata"), ex.metadata)]

/-- `Dataset.save(path)`: the text `json.dump(data, f, indent=2)` writes. -/
def Dataset.save (ds : Dataset) : Except PyError String :=
  dumps (.list (ds.examples.map Example.toData))

/-- `xs[i]`: a negative index counts from the end. -/
def pyIndex {α : Type} (xs : List α) (i : Int) : Except PyError α :=
  let j := if i < 0 then i + xs.length else i
  if 0 ≤ j then
    match xs[j.toNat]? with
    | some x => pure x
    | none => throw (.indexError "list index out of range")
  else throw (.indexError "list index out of range")

def Dataset.subset (ds : Dataset) (indices : List Int) : Except PyError Dataset := do
  pure ⟨← indices.mapM (pyIndex ds.examples)⟩

/-- What `random.sample(range(n), k)` returns for `0 ≤ k ≤ n`: `k` distinct indices
below `n`, in the order drawn. Which indices is up to the generator's state, so the
draw is a parameter of `sample`. -/
structure Draw (n k : Nat) where
  indices : List Nat
  length_eq : indices.length = k
  nodup : indices.Nodup
  lt : ∀ i ∈ indices, i < n

def randomSample (n : Nat) (k : Int) (draw : (k : Nat) → k ≤ n → Draw n k) : Except PyError (List Nat) :=
  if h : 0 ≤ k ∧ k ≤ n then .ok (draw k.toNat (by omega)).indices
  else .error (.valueError "Sample larger than population or is negative")

def Dataset.sample (ds : Dataset) (n : Int) (draw : (k : Nat) → k ≤ ds.examples.length → Draw ds.examples.length k) :
    Except PyError Dataset := do
  let indices ← randomSample ds.examples.length (min n ds.examples.length) draw
  ds.subset (indices.map Int.ofNat)

/-- Every field of the example is a value `json.loads` returns. -/
def Example.loadable (ex : Example) : Bool :=
  ex.input.loadable && ex.expected.loadable && ex.metadata.loadable

theorem mem_of_mapM_ok {α β ε : Type} {f : α → Except ε β} :
    ∀ {xs : List α} {ys : List β}, xs.mapM f = .ok ys → ∀ y ∈ ys, ∃ x ∈ xs, f x = .ok y
  | [], _, h => by
    cases h
    simp
  | x :: xs, _, h => by
    simp only [List.mapM_cons, bind_ok, pure_ok] at h
    obtain ⟨b, hb, bs, hbs, rfl⟩ := h
    intro y hy
    rcases List.mem_cons.mp hy with rfl | hy
    · exact ⟨x, List.mem_cons_self _ _, hb⟩
    · obtain ⟨x', hx', hf⟩ := mem_of_mapM_ok hbs y hy
      exact ⟨x', List.mem_cons_of_mem _ hx', hf⟩

theorem loadable_of_mem_loadableList {vs : List PyVal} (h : PyVal.loadableList vs = true)
    {v : PyVal} (hv : v ∈ vs) : v.loadable = true := by
  induction vs with
  | nil => cases hv
  | cons w ws ih =>
    simp only [PyVal.loadableList, Bool.and_eq_true] at h
    rcases List.mem_cons.mp hv with rfl | hv
    · exact h.1
    · exact ih h.2 hv

theorem mem_loadableItems {seen : List String} {items : List (PyVal × PyVal)}
    (h : PyVal.loadableItems seen items = true) {kv : PyVal × PyVal} (hkv : kv ∈ items) :
    (∃ s, kv.1 = .const (.str s)) ∧ kv.2.loadable = true := by
  induction items generalizing seen with
  | nil => cases hkv
  | cons e rest ih =>
    match e, h with
    | (.const (.str s), _), h =>
      simp only [PyVal.loadableItems, Bool.and_eq_true] at h
      rcases List.mem_cons.mp hkv with rfl | hkv
      · exact ⟨⟨s, rfl⟩, h.1.2⟩
      · exact ih h.2 hkv

theorem loadable_dictGet {items : List (PyVal × PyVal)} (h : (PyVal.dict items).loadable = true)
    (k : Const) {default : PyVal} (hd : default.loadable = true) :
    ((dictGet items k).getD default).loadable = true := by
  unfold dictGet
  cases hf : items.find? _ with
  | none => exact hd
  | some kv => exact (mem_loadableItems h (List.mem_of_find?_eq_some hf)).2

theorem loadable_of_mem_iter {v : PyVal} (h : v.loadable = true) {items : List PyVal}
    (hi : v.iter = .ok items) {item : PyVal} (hmem : item ∈ items) : item.loadable = true := by
  cases v with
  | list vs =>
    cases hi
    exact loadable_of_mem_loadableList h hmem
  | dict d =>
    cases hi
    obtain ⟨kv, hkv, rfl⟩ := List.mem_map.mp hmem
    obtain ⟨⟨s, hs⟩, -⟩ := mem_loadableItems h hkv
    rw [hs]
    rfl
  | const c =>
    cases c with
    | str s =>
      cases hi
      obtain ⟨c, -, rfl⟩ := List.mem_map.mp hmem
      rfl
    | bytes b => simp [PyVal.loadable, Const.jsonOk] at h
    | _ => cases hi

theorem loadable_exampleOf {item : PyVal} (h : item.loadable = true) {ex : Example}
    (he : exampleOf item = .ok ex) : ex.loadable = true := by
  cases item with
  | dict items =>
    cases he
    simp only [Example.loadable, loadable_dictGet h _ (show (PyVal.dict []).loadable = true from rfl),
      loadable_dictGet h _ (show (PyVal.const .pyNone).loadable = true from rfl), Bool.and_self]
  | _ => cases he

theorem loadable_fromList {items : PyVal} (h : items.loadable = true) {ds : Dataset}
    (hd : Dataset.fromList items = .ok ds) : ∀ ex ∈ ds.examples, ex.loadable = true := by
  simp only [Dataset.fromList, bind_ok, pure_ok] at hd
  obtain ⟨xs, hxs, exs, hexs, rfl⟩ := hd
  intro ex hex
  obtain ⟨item, hitem, he⟩ := mem_of_mapM_ok hexs ex hex
  exact loadable_exampleOf (loadable_of_mem_iter h hxs hitem) he

/-- The file `[{"input": {}, "expected": 4}]`. -/
def oneExampleFile : String := "[\x7b\"input\": \x7b\x7d, \"expected\": 4\x7d]"

theorem exampleOf_toData (ex : Example) : exampleOf ex.toData = .ok ex := rfl

theorem loadableList_map_toData {exs : List Example} (h : ∀ ex ∈ exs, ex.loadable = true) :
    PyVal.loadableList (exs.map Example.toData) = true := by
  induction exs with
  | nil => rfl
  | cons ex exs ih =>
    have hex := h ex (List.mem_cons_self _ _)
    simp only [Example.loadable, Bool.and_eq_true] at hex
    simp [PyVal.loadableList, Example.toData, PyVal.loadable, PyVal.loadableItems, hex,
      ih fun e he => h e (List.mem_cons_of_mem _ he)]

theorem mapM_exampleOf_toData (exs : List Example) :
    (exs.map Example.toData).mapM exampleOf = .ok exs := by
  induction exs with
  | nil => rfl
  | cons ex exs ih => rw [List.map_cons, List.mapM_cons, exampleOf_toData, ih]; rfl

/-- `{"input": {"query": "2+2"}, "expected": "4"}` and `{"input": {"query": "3*3"},
"expected": 9, "metadata": {"tags": ["math"]}}`. -/
def arithmeticDataset : Dataset :=
  ⟨[{ input := .dict [(.const (.str "query"), .const (.str "2+2"))], expected := .const (.str "4") },
    { input := .dict [(.const (.str "query"), .const (.str "3*3"))], expected := .const (.int 9),
      metadata := .dict [(.const (.str "tags"), .list [.const (.str "math")])] }]⟩

theorem getElem?_of_mapM_ok {α β ε : Type} {f : α → Except ε β} :
    ∀ {xs : List α} {ys : List β}, xs.mapM f = .ok ys →
      ys.length = xs.length ∧ ∀ (n : Nat) (y : β), ys[n]? = some y → ∃ x, xs[n]? = some x ∧ f x = .ok y
  | [], _, h => by
    cases h
    simp
  | x :: xs, _, h => by
    simp only [List.mapM_cons, bind_ok, pure_ok] at h
    obtain ⟨b, hb, bs, hbs, rfl⟩ := h
    obtain ⟨hlen, hget⟩ := getElem?_of_mapM_ok hbs
    refine ⟨by simp [hlen], fun n y hy => ?_⟩
    cases n with
    | zero =>
      rw [List.getElem?_cons_zero] at hy
      obtain rfl : b = y := Option.some.inj hy
      exact ⟨x, List.getElem?_cons_zero, hb⟩
    | succ n =>
      rw [List.getElem?_cons_succ] at hy ⊢
      exact hget n y hy

theorem pyIndex_of_mapM_ok {α β : Type} {f : α → Except PyError β} {xs : List α} {ys : List β}
    (h : xs.mapM f = .ok ys) {j : Int} {y : β} (hy : pyIndex ys j = .ok y) :
    ∃ x, pyIndex xs j = .ok x ∧ f x = .ok y := by
  obtain ⟨hlen, hget⟩ := getElem?_of_mapM_ok h
  simp only [pyIndex, hlen] at hy ⊢
  generalize (if j < 0 then j + (xs.length : Int) else j) = k at hy ⊢
  by_cases hk : 0 ≤ k
  · rw [if_pos hk] at hy ⊢
    cases hz : ys[k.toNat]? with
    | none =>
      rw [hz] at hy
      cases hy
    | some z =>
      rw [hz] at hy
      cases hy
      obtain ⟨x, hx, hfx⟩ := hget _ _ hz
      rw [hx]
      exact ⟨x, rfl, hfx⟩
  · rw [if_neg hk] at hy
    cases hy

theorem subset_of_mapM {ds : Dataset} {K : List Int} {exs : List Example}
    (h : K.mapM (pyIndex ds.examples) = .ok exs) : ds.subset K = .ok ⟨exs⟩ := by
  show (K.mapM (pyIndex ds.examples) >>= fun exs => pure (Dataset.mk exs)) = _
  rw [h]
  rfl

theorem mapM_pyIndex_comp {α : Type} {xs ys : List α} {I : List Int} (hys : I.mapM (pyIndex xs) = .ok ys) :
    ∀ {J : List Int} {zs : List α}, J.mapM (pyIndex ys) = .ok zs →
      ∃ K, J.mapM (pyIndex I) = .ok K ∧ K.mapM (pyIndex xs) = .ok zs
  | [], _, h => by
    cases h
    exact ⟨[], rfl, rfl⟩
  | j :: J, _, h => by
    simp only [List.mapM_cons, bind_ok, pure_ok] at h
    obtain ⟨z, hz, zs, hzs, rfl⟩ := h
    obtain ⟨i, hi, hiz⟩ := pyIndex_of_mapM_ok hys hz
    obtain ⟨K, hK, hKs⟩ := mapM_pyIndex_comp hys hzs
    exact ⟨i :: K, by rw [List.mapM_cons, hi, hK]; rfl, by rw [List.mapM_cons, hiz, hKs]; rfl⟩

/-- A subset of a subset is the subset at the composed indices. -/
theorem subset_subset {ds d₁ d₂ : Dataset} {I J : List Int} (h₁ : ds.subset I = .ok d₁)
    (h₂ : d₁.subset J = .ok d₂) : ∃ K, J.mapM (pyIndex I) = .ok K ∧ ds.subset K = .ok d₂ := by
  simp only [Dataset.subset, bind_ok, pure_ok] at h₁ h₂
  obtain ⟨ys, hys, rfl⟩ := h₁
  obtain ⟨zs, hzs, rfl⟩ := h₂
  obtain ⟨K, hK, hKs⟩ := mapM_pyIndex_comp hys hzs
  exact ⟨K, hK, subset_of_mapM hKs⟩

theorem arithmeticDataset_subset_subset : ∃ d₁ d₂, arithmeticDataset.subset [-1, 0] = .ok d₁ ∧
    d₁.subset [0] = .ok d₂ ∧
    ∃ K, [0].mapM (pyIndex [-1, 0]) = .ok K ∧ arithmeticDataset.subset K = .ok d₂ :=
  ⟨_, _, rfl, rfl, subset_subset rfl rfl⟩

theorem pyIndex_natCast_eq {α : Type} (xs : List α) (i : Nat) :
    pyIndex xs i = match xs[i]? with
      | some x => .ok x
      | none => .error (.indexError "list index out of range") := by
  simp only [pyIndex, show ¬((i : Int) < 0) by omega, if_false, show (0 : Int) ≤ i by omega, if_true,
    Int.toNat_ofNat]
  rfl

theorem mapM_pyIndex_lt {α : Type} (xs : List α) :
    ∀ (is : List Nat), (∀ i ∈ is, i < xs.length) →
      ∃ ys, (is.map Int.ofNat).mapM (pyIndex xs) = .ok ys ∧ List.Forall₂ (fun i y => xs[i]? = some y) is ys
  | [], _ => ⟨[], rfl, .nil⟩
  | i :: is, h => by
    have hlt : i < xs.length := h i (List.mem_cons_self _ _)
    have hi : xs[i]? = some xs[i] := List.getElem?_eq_getElem hlt
    obtain ⟨ys, hys, hpairs⟩ := mapM_pyIndex_lt xs is fun j hj => h j (List.mem_cons_of_mem _ hj)
    refine ⟨xs[i] :: ys, ?_, .cons hi hpairs⟩
    rw [List.map_cons, List.mapM_cons, Int.ofNat_eq_coe, pyIndex_natCast_eq, hi]
    simp only [ok_bind, hys]
    rfl

/-- For `n ≥ 0`, `sample(n)` returns `min(n, len(examples))` examples of the dataset,
taken at distinct places, whatever the generator draws. -/
theorem sample_ok {ds : Dataset} {n : Int} (hn : 0 ≤ n)
    (draw : (k : Nat) → k ≤ ds.examples.length → Draw ds.examples.length k) :
    ∃ sampled, ds.sample n draw = .ok sampled ∧ (sampled.examples.length : Int) = min n ds.examples.length ∧
      ∃ places : List Nat, places.Nodup ∧ List.Forall₂ (fun i ex => ds.examples[i]? = some ex) places sampled.examples := by
  have hk : 0 ≤ min n ds.examples.length ∧ min n ds.examples.length ≤ ds.examples.length := by omega
  set d := draw (min n ds.examples.length).toNat (by omega)
  obtain ⟨exs, hexs, hpairs⟩ := mapM_pyIndex_lt ds.examples d.indices d.lt
  refine ⟨⟨exs⟩, ?_, ?_, d.indices, d.nodup, hpairs⟩
  · simp only [Dataset.sample, randomSample, dif_pos hk, ok_bind]
    exact subset_of_mapM hexs
  · rw [← hpairs.length_eq, d.length_eq]
    omega

def firstDraw (n k : Nat) (hk : k ≤ n) : Draw n k :=
  ⟨List.range k, List.length_range k, List.nodup_range k, fun _ hi => lt_of_lt_of_le (List.mem_range.mp hi) hk⟩

theorem arithmeticDataset_sample_ok :
    ∃ sampled, arithmeticDataset.sample 1 (firstDraw arithmeticDataset.examples.length) = .ok sampled ∧
    (sampled.examples.length : Int) = min 1 arithmeticDataset.examples.length ∧
    ∃ places : List Nat, places.Nodup ∧
      List.Forall₂ (fun i ex => arithmeticDataset.examples[i]? = some ex) places sampled.examples :=
  @sample_ok arithmeticDataset 1 (by decide) (firstDraw arithmeticDataset.examples.length)

end Restflow
