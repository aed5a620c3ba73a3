import Restflow.Parser.Laws

/-!
# Predicate ids and the registry

The ids of the conditions outside loop bodies, and those inside each loop body, are
numbered from `pred_0` in pre-order (`parse_scopes_numbered`), and the registry `parse`
returns is empty (`parse_predicates_nil`).
-/

namespace Restflow

open Python

mutual
def NodeDef.predicateIds : NodeDef → List String
  | .step _ => []
  | .parallel _ steps => NodeDef.predicateIdsList steps
  | .condition i _ t none => i :: t.predicateIds
  | .condition i _ t (some e) => i :: t.predicateIds ++ e.predicateIds
  | .loop _ _ body => body.predicateIds
  | .sequence steps => NodeDef.predicateIdsList steps
def NodeDef.predicateIdsList : List NodeDef → List String
  | [] => []
  | n :: ns => n.predicateIds ++ NodeDef.predicateIdsList ns
end

mutual
/-- The ids of the conditions outside loop bodies, in pre-order. -/
def NodeDef.scopeIds : NodeDef → List String
  | .step _ => []
  | .parallel _ steps => NodeDef.scopeIdsList steps
  | .condition i _ t none => i :: t.scopeIds
  | .condition i _ t (some e) => i :: t.scopeIds ++ e.scopeIds
  | .loop _ _ _ => []
  | .sequence steps => NodeDef.scopeIdsList steps
def NodeDef.scopeIdsList : List NodeDef → List String
  | [] => []
  | n :: ns => n.scopeIds ++ NodeDef.scopeIdsList ns
end

theorem NodeDef.scopeIdsList_append (ns ms : List NodeDef) :
    NodeDef.scopeIdsList (ns ++ ms) = NodeDef.scopeIdsList ns ++ NodeDef.scopeIdsList ms := by
  induction ns with
  | nil => rfl
  | cons n ns ih => simp [NodeDef.scopeIdsList, ih]

theorem NodeDef.scopeIdsList_steps (steps : List StepDef) :
    NodeDef.scopeIdsList (steps.map .step) = [] := by
  induction steps with
  | nil => rfl
  | cons s ss ih => simpa [NodeDef.scopeIdsList, NodeDef.scopeIds] using ih

/-- `ids` is `pred_k`, `pred_(k+1)`, ..., up to `pred_k'` excluded. -/
def Numbered (k : Nat) (ids : List String) (k' : Nat) : Prop :=
  k ≤ k' ∧ ids = (List.range' k (k' - k)).map predicateName

theorem Numbered.nil (k : Nat) : Numbered k [] k := ⟨le_rfl, by simp⟩

theorem Numbered.append {k m k' : Nat} {a b : List String} (ha : Numbered k a m)
    (hb : Numbered m b k') : Numbered k (a ++ b) k' := by
  obtain ⟨hkm, rfl⟩ := ha
  obtain ⟨hmk, rfl⟩ := hb
  refine ⟨hkm.trans hmk, ?_⟩
  have h := List.range'_append_1 k (m - k) (k' - m)
  rw [show k + (m - k) = m by omega, show k' - m + (m - k) = k' - k by omega] at h
  rw [← List.map_append, h]

theorem Numbered.cons {k k' : Nat} {ids : List String} (h : Numbered (k + 1) ids k') :
    Numbered k (predicateName k :: ids) k' :=
  Numbered.append (a := [predicateName k]) ⟨by omega, by simp⟩ h

theorem Numbered.length {k k' : Nat} {ids : List String} (h : Numbered k ids k') :
    ids.length = k' - k := by
  simp [h.2]

/-- A loop body numbers the conditions of its own scope from `pred_0`. -/
def LoopNumbered : NodeDef → Prop
  | .loop _ _ body => Numbered 0 body.scopeIds body.scopeIds.length
  | _ => True

/-- What a run appends: the ids of its scope continue the counter, and every loop
it appends numbers its own scope from `pred_0`. -/
def ScopeNumbered (p p' : WorkflowParser) : Prop :=
  ∃ new, p'.steps = p.steps ++ new ∧
    Numbered p.predicateCounter (NodeDef.scopeIdsList new) p'.predicateCounter ∧
    NodeDef.ForallList LoopNumbered new

theorem visitAll_scopeNumbered {ss : List Stmt} {p p' : WorkflowParser}
    (h : visitAll p ss = .ok p') : ScopeNumbered p p' := by
  refine visitAll_rel ScopeNumbered (fun p => ⟨[], by simp, Numbered.nil _, trivial⟩)
    ?_ ?_ ?_ ?_ ?_ ss h
  · rintro p q r ⟨n, hn, hkn, hln⟩ ⟨m, hm, hkm, hlm⟩
    refine ⟨n ++ m, by simp [hm, hn], ?_, (NodeDef.forallList_append _ _ _).mpr ⟨hln, hlm⟩⟩
    rw [NodeDef.scopeIdsList_append]
    exact hkn.append hkm
  · intro p p' _ _ h
    rcases visitAssign_ok h with ⟨_, _, _, _, -, -, rfl⟩ | ⟨_, steps, -, -, -, rfl⟩ | rfl
    · exact ⟨_, rfl, Numbered.nil _, trivial, trivial⟩
    · refine ⟨_, rfl, ?_, ⟨trivial, (NodeDef.forallList_map_step _ steps).mpr fun _ _ => trivial⟩, trivial⟩
      simpa [NodeDef.scopeIdsList, NodeDef.scopeIds, NodeDef.scopeIdsList_steps]
        using Numbered.nil p.predicateCounter
    · exact ⟨[], by simp, Numbered.nil _, trivial⟩
  · intro p p' _ h
    rcases visitReturn_ok h with ⟨_, _, _, _, -, -, rfl⟩ | rfl
    · exact ⟨_, rfl, Numbered.nil _, trivial, trivial⟩
    · exact ⟨[], by simp, Numbered.nil _, trivial⟩
  · intro p p' _ _ _ ihb iho h
    obtain ⟨_, c, -, hc, ⟨-, rfl⟩ | ⟨e, -, he, rfl⟩⟩ := visit_if_ok h
    · obtain ⟨nc, hnc, hkc, hlc⟩ := ihb hc
      simp only [WorkflowParser.child_steps, List.nil_append] at hnc
      subst hnc
      refine ⟨_, rfl, ?_, ⟨trivial, trivial, hlc⟩, trivial⟩
      simpa [NodeDef.scopeIdsList, NodeDef.scopeIds] using hkc.cons
    · obtain ⟨nc, hnc, hkc, hlc⟩ := ihb hc
      obtain ⟨ne, hne, hke, hle⟩ := iho he
      simp only [WorkflowParser.child_steps, List.nil_append] at hnc hne
      subst hnc hne
      refine ⟨_, rfl, ?_, ⟨trivial, ⟨trivial, hlc⟩, ⟨trivial, hle⟩⟩, trivial⟩
      simpa [NodeDef.scopeIdsList, NodeDef.scopeIds] using (hkc.append hke).cons
  · intro p p' _ _ _ ihb h
    obtain ⟨_, c, -, hc, rfl⟩ := visit_for_ok h
    obtain ⟨nc, hnc, hkc, hlc⟩ := ihb hc
    simp only [List.nil_append] at hnc
    subst hnc
    refine ⟨_, rfl, by simpa [NodeDef.scopeIdsList, NodeDef.scopeIds] using Numbered.nil _,
      ⟨?_, trivial, hlc⟩, trivial⟩
    have hlen := hkc.length
    simp only [LoopNumbered, NodeDef.scopeIds]
    simpa [hlen] using hkc


/-- Outside loop bodies the ids are `pred_0`, `pred_1`, ... in pre-order, and
inside each loop body they are `pred_0`, `pred_1`, ... again. -/
theorem parse_scopes_numbered {f : FunctionDef} {w : WorkflowDef}
    {preds : List (String × Predicate)} (h : parse f = .ok (w, preds)) :
    Numbered 0 w.body.scopeIds w.body.scopeIds.length ∧ w.body.Forall LoopNumbered := by
  obtain ⟨_, p, -, hp, hr⟩ := parse_ok.mp h
  obtain ⟨new, hnew, hk, hl⟩ := visitAll_scopeNumbered hp
  simp only [Prod.mk.injEq] at hr
  obtain ⟨rfl, -⟩ := hr
  simp only [List.nil_append] at hnew
  subst hnew
  refine ⟨?_, trivial, hl⟩
  simpa [NodeDef.scopeIds, hk.length] using hk

/-- `if a: y = f()` and then `for x in xs: if b: z = g()`. -/
def ifThenLoopWorkflow : FunctionDef :=
  ⟨"w", [⟨"xs", none⟩],
    [.if_ (.name "a") [.assign (.name "y") (.call (.name "f") [] [])] [],
     .for_ (.name "x") (.name "xs")
      [.if_ (.name "b") [.assign (.name "z") (.call (.name "g") [] [])] []]]⟩

theorem ifThenLoopWorkflow_ids :
    (parse ifThenLoopWorkflow).map (·.1.body.predicateIds) = .ok ["pred_0", "pred_0"] := rfl

theorem ifThenLoopWorkflow_numbered :
    ∃ w preds, parse ifThenLoopWorkflow = .ok (w, preds) ∧
      Numbered 0 w.body.scopeIds w.body.scopeIds.length ∧ w.body.Forall LoopNumbered :=
  ⟨_, _, rfl, @parse_scopes_numbered ifThenLoopWorkflow _ _ rfl⟩

/-- `visit_If` never stores into `self.predicates`: the registry stays empty. -/
theorem parse_predicates_nil {f : FunctionDef} {w : WorkflowDef}
    {preds : List (String × Predicate)} (h : parse f = .ok (w, preds)) : preds = [] := by
  obtain ⟨_, p, -, hp, hr⟩ := parse_ok.mp h
  obtain ⟨-, -, hpred⟩ := visitAll_frame hp
  simp only [Prod.mk.injEq] at hr
  rw [hr.2, hpred]

theorem ifThenLoopWorkflow_predicates :
    ∃ w preds, parse ifThenLoopWorkflow = .ok (w, preds) ∧ preds = [] :=
  ⟨_, _, rfl, @parse_predicates_nil ifThenLoopWorkflow _ _ rfl⟩

end Restflow
