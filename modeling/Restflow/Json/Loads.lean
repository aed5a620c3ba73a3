import Restflow.Json.Values

/-!
# `json.loads`

The value `json.loads` builds from a document: an `int` of at most 4300 digits or the
nearest `float` for a number token, and dicts where the last value of a repeated key
wins. `loads` inverts `dumps` (`loads_dumps`) on the values it returns (`loadable_loads`).
-/

namespace Restflow

open Python

mutual
def loadsValue : JsonValue → Option PyVal
  | .null => some (.const .pyNone)
  | .bool b => some (.const (.bool b))
  | .number t => (decodeNumber t).map .const
  | .string s => some (.const (.str s))
  | .array vs => (loadsList vs).map .list
  | .object ms => (loadsMembers [] ms).map .dict
def loadsList : List JsonValue → Option (List PyVal)
  | [] => some []
  | v :: vs => (loadsValue v).bind fun v => (loadsList vs).map (v :: ·)
/-- The object's members stored in turn by `d[key] = value`. -/
def loadsMembers (acc : List (PyVal × PyVal)) : List (String × JsonValue) → Option (List (PyVal × PyVal))
  | [] => some acc
  | (k, v) :: ms => (loadsValue v).bind fun v => loadsMembers (insertConst acc (.str k) v) ms
end

/-- `json.loads(text)`; `none` is the `ValueError` it raises: a `JSONDecodeError`, or
the digit limit of an `int` token. -/
def loads (text : String) : Option PyVal := (readJson true text).bind loadsValue

mutual
/-- The values `json.loads` returns: JSON constants, with any float and no `int` past
the digit limit, and lists and dicts of them whose keys are distinct `str`s; `seen`
holds the keys before. -/
def Python.PyVal.loadable : PyVal → Bool
  | .const c => c.jsonOk false
  | .list vs => Python.PyVal.loadableList vs
  | .dict items => Python.PyVal.loadableItems [] items
def Python.PyVal.loadableList : List PyVal → Bool
  | [] => true
  | v :: vs => v.loadable && Python.PyVal.loadableList vs
def Python.PyVal.loadableItems (seen : List String) : List (PyVal × PyVal) → Bool
  | [] => true
  | (.const (.str k), v) :: items =>
    !seen.contains k && v.loadable && Python.PyVal.loadableItems (k :: seen) items
  | _ :: _ => false
end

theorem pyEq_str (s t : String) : Const.pyEq (.str s) (.str t) = (s == t) := rfl

section StrKeys

variable {k : String} {v : PyVal}

theorem insertConst_str_fresh {acc : List (PyVal × PyVal)}
    (fresh : ∀ kv ∈ acc, ∃ s, kv.1 = .const (.str s) ∧ s ≠ k) :
    insertConst acc (.str k) v = acc ++ [(.const (.str k), v)] := by
  induction acc with
  | nil => rfl
  | cons kv rest ih =>
    obtain ⟨s, hs, hne⟩ := fresh kv (List.mem_cons_self _ _)
    obtain ⟨_, w⟩ := kv
    cases hs
    simp only [insertConst, pyEq_str, beq_eq_false_iff_ne.mpr hne, Bool.false_eq_true, if_false,
      ih fun kv h => fresh kv (List.mem_cons_of_mem _ h), List.cons_append]

theorem loadableItems_insertConst {seen : List String} {acc : List (PyVal × PyVal)}
    (hacc : PyVal.loadableItems seen acc = true) (hk : k ∉ seen) (hv : v.loadable = true) :
    PyVal.loadableItems seen (insertConst acc (.str k) v) = true := by
  induction acc generalizing seen with
  | nil => simp [insertConst, PyVal.loadableItems, hk, hv]
  | cons kv rest ih =>
    match kv, hacc with
    | (.const (.str s), w), hacc =>
      simp only [PyVal.loadableItems, Bool.and_eq_true, Bool.not_eq_true'] at hacc
      obtain ⟨⟨hfresh, hw⟩, hrest⟩ := hacc
      have hfresh : s ∉ seen := by simpa using hfresh
      by_cases hs : s = k
      · subst hs
        simp [insertConst, pyEq_str, PyVal.loadableItems, hfresh, hv, hrest]
      · have hk' : k ∉ s :: seen := by simp [hk, Ne.symm hs]
        simp [insertConst, pyEq_str, hs, PyVal.loadableItems, hfresh, hw, ih hrest hk']

end StrKeys

mutual
theorem loadable_loadsValue : ∀ (j : JsonValue) {v : PyVal}, loadsValue j = some v → v.loadable = true
  | .null, _, h | .bool _, _, h | .string _, _, h => by cases h; rfl
  | .number t, _, h => by
    simp only [loadsValue, Option.map_eq_some'] at h
    obtain ⟨c, hc, rfl⟩ := h
    unfold decodeNumber at hc
    split at hc
    · split at hc
      · cases hc
        exact intFits_intValue (by assumption) (by assumption)
      · cases hc
    · obtain ⟨f, -, rfl⟩ := Option.map_eq_some'.mp hc
      rfl
  | .array vs, _, h => by
    obtain ⟨vs', hvs, rfl⟩ := Option.map_eq_some'.mp h
    exact loadable_loadsList vs hvs
  | .object ms, _, h => by
    obtain ⟨items, hitems, rfl⟩ := Option.map_eq_some'.mp h
    exact loadable_loadsMembers ms (show PyVal.loadableItems [] [] = true from rfl) hitems
theorem loadable_loadsList : ∀ (js : List JsonValue) {vs : List PyVal},
    loadsList js = some vs → PyVal.loadableList vs = true
  | [], _, h => by cases h; rfl
  | j :: js, _, h => by
    obtain ⟨v, hv, h⟩ := Option.bind_eq_some.mp h
    obtain ⟨vs, hvs, rfl⟩ := Option.map_eq_some'.mp h
    simp [PyVal.loadableList, loadable_loadsValue j hv, loadable_loadsList js hvs]
theorem loadable_loadsMembers : ∀ (ms : List (String × JsonValue)) {acc items : List (PyVal × PyVal)},
    PyVal.loadableItems [] acc = true → loadsMembers acc ms = some items →
      PyVal.loadableItems [] items = true
  | [], _, _, hacc, h => by cases h; exact hacc
  | (k, j) :: ms, _, _, hacc, h => by
    obtain ⟨v, hv, h⟩ := Option.bind_eq_some.mp h
    exact loadable_loadsMembers ms
      (loadableItems_insertConst hacc (List.not_mem_nil _) (loadable_loadsValue j hv)) h
end

theorem loadable_loads {text : String} {v : PyVal} (h : loads text = some v) : v.loadable = true := by
  obtain ⟨j, -, hj⟩ := Option.bind_eq_some.mp h
  exact loadable_loadsValue j hj

mutual
theorem loadsValue_toJson? : ∀ (v : PyVal), v.loadable = true →
    ∃ j, v.toJson? = .ok j ∧ loadsValue j = some v
  | .const c, h => by
    cases c with
    | int i =>
      have hi : intFits i = true := h
      exact ⟨.number (toString i), by simp [PyVal.toJson?, Const.toJson?, intRepr, hi]; rfl,
        by simp [loadsValue, decodeNumber_int hi]⟩
    | float f => exact ⟨_, rfl, by simp [loadsValue, decodeNumber_float]⟩
    | complex | bytes | ellipsis => simp [PyVal.loadable, Const.jsonOk] at h
    | _ => exact ⟨_, rfl, rfl⟩
  | .list vs, h => by
    obtain ⟨js, hjs, hl⟩ := loadsList_toJsonList? vs h
    exact ⟨.array js, by simp [PyVal.toJson?, hjs], by simp [loadsValue, hl]⟩
  | .dict items, h => by
    obtain ⟨ms, hms, hl⟩ := loadsMembers_toJsonItems? items [] [] (by simp) h
    exact ⟨.object ms, by simp [PyVal.toJson?, hms], by simp [loadsValue, hl]⟩
theorem loadsList_toJsonList? : ∀ (vs : List PyVal), PyVal.loadableList vs = true →
    ∃ js, PyVal.toJsonList? vs = .ok js ∧ loadsList js = some vs
  | [], _ => ⟨[], rfl, rfl⟩
  | v :: vs, h => by
    simp only [PyVal.loadableList, Bool.and_eq_true] at h
    obtain ⟨j, hj, hl⟩ := loadsValue_toJson? v h.1
    obtain ⟨js, hjs, hls⟩ := loadsList_toJsonList? vs h.2
    exact ⟨j :: js, by simp [PyVal.toJsonList?, hj, hjs], by simp [loadsList, hl, hls]⟩
theorem loadsMembers_toJsonItems? : ∀ (items acc : List (PyVal × PyVal)) (seen : List String),
    (∀ kv ∈ acc, ∃ s, kv.1 = .const (.str s) ∧ s ∈ seen) → PyVal.loadableItems seen items = true →
    ∃ ms, PyVal.toJsonItems? items = .ok ms ∧ loadsMembers acc ms = some (acc ++ items)
  | [], acc, _, _, _ => ⟨[], rfl, by simp [loadsMembers]⟩
  | (.const (.str k), v) :: items, acc, seen, hacc, h => by
    simp only [PyVal.loadableItems, Bool.and_eq_true, Bool.not_eq_true'] at h
    obtain ⟨j, hj, hl⟩ := loadsValue_toJson? v h.1.2
    have fresh : ∀ kv ∈ acc, ∃ s, kv.1 = .const (.str s) ∧ s ≠ k := by
      intro kv hkv
      obtain ⟨s, hs, hseen⟩ := hacc kv hkv
      refine ⟨s, hs, fun hsk => ?_⟩
      subst hsk
      simp [hseen] at h
    have hacc' : ∀ kv ∈ acc ++ [(.const (.str k), v)], ∃ s, kv.1 = .const (.str s) ∧ s ∈ k :: seen := by
      intro kv hkv
      rcases List.mem_append.mp hkv with hkv | hkv
      · obtain ⟨s, hs, hseen⟩ := hacc kv hkv
        exact ⟨s, hs, List.mem_cons_of_mem _ hseen⟩
      · rw [List.mem_singleton.mp hkv]
        exact ⟨k, rfl, List.mem_cons_self _ _⟩
    obtain ⟨ms, hms, hls⟩ := loadsMembers_toJsonItems? items _ (k :: seen) hacc' h.2
    refine ⟨(k, j) :: ms, by simp [PyVal.toJsonItems?, keyText?, hj, hms], ?_⟩
    simp only [loadsMembers, hl, Option.some_bind, insertConst_str_fresh fresh, hls,
      List.append_assoc, List.singleton_append]
end

/-- `json.dumps` writes every loadable value, and `json.loads` reads it back. -/
theorem loads_dumps {v : PyVal} (h : v.loadable = true) : ∃ text, dumps v = .ok text ∧ loads text = some v := by
  obtain ⟨j, hj, hl⟩ := loadsValue_toJson? v h
  refine ⟨String.mk (j.render 0), by rw [dumps_eq, hj]; rfl, ?_⟩
  simp only [loads, readJson_render (PyVal.numbersOk_toJson? v hj), Option.some_bind, hl]

theorem dumps_standard_loads {v : PyVal} (hok : v.jsonOk true = true) (hload : v.loadable = true) :
    ∃ text doc, dumps v = .ok text ∧ readJson false text = some doc ∧ loads text = some v := by
  obtain ⟨text, hdump, hloads⟩ := loads_dumps hload
  obtain ⟨j, hj, hn⟩ := PyVal.toJson?_of_jsonOk _ hok
  have htext : String.mk (j.render 0) = text := by
    rw [dumps_eq, hj] at hdump
    exact Except.ok.inj hdump
  exact ⟨text, j, hdump, htext ▸ readJson_render hn, hloads⟩

end Restflow
