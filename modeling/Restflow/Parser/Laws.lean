import Restflow.Parser

/-!
# What one parser step does

One lemma per method of `WorkflowParser`, read off its success, and `visitAll_rel`,
the induction over the statement tree done once for any relation between the parser
before and after.
-/

namespace Restflow

open Python

theorem getItem_ok {α : Type} {xs : List α} {i : Nat} {x : α} :
    getItem xs i = .ok x ↔ xs[i]? = some x := by
  unfold getItem
  cases h : xs[i]? <;> simp [pure_ok, throw, throwThe, MonadExceptOf.throw]

@[simp] theorem WorkflowParser.append_steps (p : WorkflowParser) (n : NodeDef) :
    (p.append n).steps = p.steps ++ [n] := rfl
@[simp] theorem WorkflowParser.append_predicates (p : WorkflowParser) (n : NodeDef) :
    (p.append n).predicates = p.predicates := rfl
@[simp] theorem WorkflowParser.append_predicateCounter (p : WorkflowParser) (n : NodeDef) :
    (p.append n).predicateCounter = p.predicateCounter := rfl
@[simp] theorem WorkflowParser.next_steps (p : WorkflowParser) : p.next.steps = p.steps := rfl
@[simp] theorem WorkflowParser.next_predicates (p : WorkflowParser) :
    p.next.predicates = p.predicates := rfl
@[simp] theorem WorkflowParser.next_predicateCounter (p : WorkflowParser) :
    p.next.predicateCounter = p.predicateCounter + 1 := rfl
@[simp] theorem WorkflowParser.child_steps (p : WorkflowParser) : p.child.steps = [] := rfl
@[simp] theorem WorkflowParser.child_predicates (p : WorkflowParser) :
    p.child.predicates = p.predicates := rfl
@[simp] theorem WorkflowParser.child_predicateCounter (p : WorkflowParser) :
    p.child.predicateCounter = p.predicateCounter := rfl
@[simp] theorem WorkflowParser.join_steps (p c : WorkflowParser) : (p.join c).steps = p.steps := rfl
@[simp] theorem WorkflowParser.join_predicates (p c : WorkflowParser) :
    (p.join c).predicates = c.predicates := rfl
@[simp] theorem WorkflowParser.join_predicateCounter (p c : WorkflowParser) :
    (p.join c).predicateCounter = c.predicateCounter := rfl

theorem visitAll_cons_ok {p r : WorkflowParser} {s : Stmt} {ss : List Stmt} :
    visitAll p (s :: ss) = .ok r ↔ ∃ q, visit p s = .ok q ∧ visitAll q ss = .ok r := by
  simp [visitAll, bind_ok]

theorem visitAll_append (p : WorkflowParser) (ss ts : List Stmt) :
    visitAll p (ss ++ ts) = visitAll p ss >>= fun q => visitAll q ts := by
  induction ss generalizing p with
  | nil => rfl
  | cons s ss ih =>
    rw [List.cons_append, visitAll, visitAll]
    cases visit p s with
    | error => rfl
    | ok q => exact ih q

theorem visitAssign_ok {p p' : WorkflowParser} {target value : Expr}
    (h : visitAssign p target value = .ok p') :
    (∃ func args keywords s, value = .call func args keywords ∧
      parseCall func args keywords = .ok s ∧
      p' = p.append (.step { s with output := getAssignTarget target })) ∨
    (∃ elts steps, value = .tuple elts ∧
      parallelSteps (getTupleTargets target) 0 elts = .ok steps ∧ steps ≠ [] ∧
      p' = p.append (.parallel (getTupleTargets target) (steps.map .step))) ∨
    p' = p := by
  unfold visitAssign at h
  split at h
  · simp only [bind_ok, pure_ok] at h
    obtain ⟨s, hs, rfl⟩ := h
    exact .inl ⟨_, _, _, s, rfl, hs, rfl⟩
  · simp only [bind_ok, pure_ok] at h
    obtain ⟨steps, hs, rfl⟩ := h
    by_cases he : steps = []
    · simp [he]
    · exact .inr (.inl ⟨_, steps, rfl, hs, he, by simp [he]⟩)
  · exact .inr (.inr (pure_ok.mp h).symm)

theorem visitReturn_ok {p p' : WorkflowParser} {value : Option Expr}
    (h : visitReturn p value = .ok p') :
    (∃ func args keywords s, value = some (.call func args keywords) ∧
      parseCall func args keywords = .ok s ∧
      p' = p.append (.step { s with output := "__return__" })) ∨
    p' = p := by
  unfold visitReturn at h
  split at h
  · simp only [bind_ok, pure_ok] at h
    obtain ⟨s, hs, rfl⟩ := h
    exact .inl ⟨_, _, _, s, rfl, hs, rfl⟩
  · exact .inr (pure_ok.mp h).symm

/-- `visit_If`: the then-branch parser starts after the id it takes, the
else-branch parser after the then-branch, and the parser keeps the counter and
registry of the last branch it ran. -/
theorem visit_if_ok {p p' : WorkflowParser} {test : Expr} {body orelse : List Stmt}
    (h : visit p (.if_ test body orelse) = .ok p') :
    ∃ src c, unparse test = .ok src ∧ visitAll p.next.child body = .ok c ∧
      ((orelse = [] ∧ p' = (p.next.join c).append (.condition
          (predicateName p.predicateCounter) src (.sequence c.steps) none)) ∨
        (∃ e, orelse ≠ [] ∧ visitAll c.child orelse = .ok e ∧
          p' = (p.next.join e).append (.condition (predicateName p.predicateCounter)
            src (.sequence c.steps) (some (.sequence e.steps))))) := by
  simp only [visit, bind_ok] at h
  obtain ⟨src, hsrc, c, hc, h⟩ := h
  refine ⟨src, c, hsrc, hc, ?_⟩
  by_cases ho : orelse = []
  · simp only [ho, List.isEmpty_nil, if_true, pure_ok] at h
    exact .inl ⟨ho, h.symm⟩
  · simp only [List.isEmpty_iff, ho, if_false, bind_ok, pure_ok] at h
    obtain ⟨e, he, rfl⟩ := h
    exact .inr ⟨e, ho, he, rfl⟩

/-- `visit_For`: the body parser is a fresh `WorkflowParser()`. -/
theorem visit_for_ok {p p' : WorkflowParser} {target iter : Expr} {body : List Stmt}
    (h : visit p (.for_ target iter body) = .ok p') :
    ∃ src c, unparse iter = .ok src ∧ visitAll {} body = .ok c ∧
      p' = p.append (.loop (iterVarOf target) src (.sequence c.steps)) := by
  simp only [visit, bind_ok, pure_ok] at h
  obtain ⟨src, hsrc, c, hc, rfl⟩ := h
  exact ⟨src, c, hsrc, hc, rfl⟩


section Runs

variable (R : WorkflowParser → WorkflowParser → Prop)
  (refl : ∀ p, R p p) (trans : ∀ {p q r}, R p q → R q r → R p r)
  (assign : ∀ {p p' target value}, visitAssign p target value = .ok p' → R p p')
  (ret : ∀ {p p' value}, visitReturn p value = .ok p' → R p p')
  (cond : ∀ {p p' test body orelse},
    (∀ {q q'}, visitAll q body = .ok q' → R q q') →
    (∀ {q q'}, visitAll q orelse = .ok q' → R q q') →
    visit p (.if_ test body orelse) = .ok p' → R p p')
  (loop : ∀ {p p' target iter body},
    (∀ {q q'}, visitAll q body = .ok q' → R q q') →
    visit p (.for_ target iter body) = .ok p' → R p p')

set_option linter.unusedSectionVars false in
include refl trans assign ret cond loop in
mutual
/-- A relation that holds across every assignment and return, composes, and
survives the branch and loop statements given their bodies, holds across every
statement the parser visits. -/
theorem visit_rel : ∀ (s : Stmt) {p p' : WorkflowParser}, visit p s = .ok p' → R p p'
  | .assign _ _, _, _, h => assign h
  | .if_ _ body orelse, _, _, h => cond (visitAll_rel body) (visitAll_rel orelse) h
  | .for_ _ _ body, _, _, h => loop (visitAll_rel body) h
  | .return_ _, _, _, h => ret h
  | .other body, _, _, h => visitAll_rel body h
theorem visitAll_rel : ∀ (ss : List Stmt) {p p' : WorkflowParser}, visitAll p ss = .ok p' → R p p'
  | [], p, _, h => by
    simp only [visitAll, pure_ok] at h
    exact h ▸ refl p
  | s :: ss, _, _, h => by
    obtain ⟨q, h1, h2⟩ := visitAll_cons_ok.mp h
    exact trans (visit_rel s h1) (visitAll_rel ss h2)
end

end Runs

theorem parse_ok {f : FunctionDef} {r : WorkflowDef × List (String × Predicate)} :
    parse f = .ok r ↔ ∃ ps p, parseParameters f.args = .ok ps ∧ visitAll {} f.body = .ok p ∧
      r = ({ name := f.name, parameters := ps
             body := .sequence p.steps, returnVar := findReturnVar p.steps }, p.predicates) := by
  simp only [parse, bind_ok, pure_ok]
  exact ⟨fun ⟨ps, hps, p, hp, h⟩ => ⟨ps, p, hps, hp, h.symm⟩,
    fun ⟨ps, p, hps, hp, h⟩ => ⟨ps, hps, p, hp, h.symm⟩⟩

theorem parseParameters_safe {args : List Arg} (h : args.all Arg.intsFit = true) :
    ∃ ps, parseParameters args = .ok ps := by
  induction args with
  | nil => exact ⟨[], rfl⟩
  | cons a args ih =>
    obtain ⟨arg, ann⟩ := a
    simp only [List.all_cons, Bool.and_eq_true] at h
    obtain ⟨t, ht⟩ : ∃ t, ann.elim (.ok "") unparse = .ok t := by
      cases ann with
      | none => exact ⟨"", rfl⟩
      | some e => exact unparse_ok e h.1
    obtain ⟨ps, hps⟩ := ih h.2
    exact ⟨_, by simp [parseParameters, ht, hps]; rfl⟩

theorem visitAll_frame {ss : List Stmt} {p p' : WorkflowParser} (h : visitAll p ss = .ok p') :
    ∃ new, p'.steps = p.steps ++ new ∧ p'.predicates = p.predicates := by
  refine visitAll_rel (fun p p' => ∃ new, p'.steps = p.steps ++ new ∧
    p'.predicates = p.predicates) (fun p => ⟨[], by simp, rfl⟩) ?_ ?_ ?_ ?_ ?_ ss h
  · rintro p q r ⟨n, hn, hp⟩ ⟨m, hm, hq⟩
    exact ⟨n ++ m, by simp [hm, hn], hq.trans hp⟩
  · intro p p' _ _ h
    rcases visitAssign_ok h with ⟨_, _, _, _, -, -, rfl⟩ | ⟨_, _, -, -, -, rfl⟩ | rfl <;> simp
  · intro p p' _ h
    rcases visitReturn_ok h with ⟨_, _, _, _, -, -, rfl⟩ | rfl <;> simp
  · intro p p' _ _ _ ihb iho h
    obtain ⟨-, c, -, hc, ⟨-, rfl⟩ | ⟨e, -, he, rfl⟩⟩ := visit_if_ok h
    · obtain ⟨-, -, hc⟩ := ihb hc
      simpa using hc
    · obtain ⟨-, -, hc⟩ := ihb hc
      obtain ⟨-, -, he⟩ := iho he
      simpa [hc] using he
  · intro p p' _ _ _ _ h
    obtain ⟨-, c, -, -, rfl⟩ := visit_for_ok h
    simp

theorem parallelSteps_calls {outputs : List String} {i : Nat} {elts : List Expr}
    {steps : List StepDef} (h : parallelSteps outputs i elts = .ok steps) :
    ∀ s ∈ steps, ∃ func args keywords s₀, Expr.call func args keywords ∈ elts ∧
      parseCall func args keywords = .ok s₀ ∧ s = { s₀ with output := s.output } := by
  induction elts generalizing i steps with
  | nil =>
    simp only [parallelSteps, pure_ok] at h
    simp [← h]
  | cons e elts ih =>
    have later : ∀ {i steps}, parallelSteps outputs i elts = .ok steps → ∀ s ∈ steps,
        ∃ func args keywords s₀, Expr.call func args keywords ∈ e :: elts ∧
          parseCall func args keywords = .ok s₀ ∧ s = { s₀ with output := s.output } :=
      fun h s hs => (ih h s hs).imp fun _ ⟨_, _, _, hm, h₀⟩ => ⟨_, _, _, List.mem_cons_of_mem _ hm, h₀⟩
    cases e
    case call func args keywords =>
      simp only [parallelSteps, bind_ok, pure_ok] at h
      obtain ⟨s₀, hs₀, o, -, rest, hrest, rfl⟩ := h
      intro s hs
      rcases List.mem_cons.mp hs with rfl | hs
      · exact ⟨_, _, _, s₀, List.mem_cons_self _ _, hs₀, rfl⟩
      · exact later hrest s hs
    all_goals exact later (by simpa only [parallelSteps] using h)

/-- A tree property that holds of every step `_parse_call` builds, of every
parallel node of such steps, and of every condition, loop and sequence node, holds
of everything a run appends. -/
theorem visitAll_forall {P : NodeDef → Prop}
    (hstep : ∀ {func args keywords s} (o : String),
      parseCall func args keywords = .ok s → P (.step { s with output := o }))
    (hpar : ∀ {outputs elts steps}, parallelSteps outputs 0 elts = .ok steps → steps ≠ [] →
      P (.parallel outputs (steps.map .step)))
    (hcond : ∀ i src t e, P (.condition i src t e)) (hloop : ∀ v it b, P (.loop v it b))
    (hseq : ∀ ns, P (.sequence ns))
    {ss : List Stmt} {p p' : WorkflowParser} (h : visitAll p ss = .ok p') :
    ∃ new, p'.steps = p.steps ++ new ∧ NodeDef.ForallList P new := by
  refine visitAll_rel (fun p p' => ∃ new, p'.steps = p.steps ++ new ∧ NodeDef.ForallList P new)
    (fun p => ⟨[], by simp, trivial⟩) ?_ ?_ ?_ ?_ ?_ ss h
  · rintro p q r ⟨n, hn, hpn⟩ ⟨m, hm, hpm⟩
    exact ⟨n ++ m, by simp [hm, hn], (NodeDef.forallList_append _ _ _).mpr ⟨hpn, hpm⟩⟩
  · intro p p' _ _ h
    rcases visitAssign_ok h with ⟨_, _, _, _, -, hs, rfl⟩ | ⟨_, steps, -, hs, hne, rfl⟩ | rfl
    · exact ⟨_, rfl, ⟨hstep _ hs, trivial⟩⟩
    · refine ⟨_, rfl, ⟨⟨hpar hs hne, ?_⟩, trivial⟩⟩
      refine (NodeDef.forallList_map_step _ steps).mpr fun s hmem => ?_
      obtain ⟨_, _, _, s₀, -, hs₀, hs⟩ := parallelSteps_calls hs s hmem
      exact hs ▸ hstep _ hs₀
    · exact ⟨[], by simp, trivial⟩
  · intro p p' _ h
    rcases visitReturn_ok h with ⟨_, _, _, _, -, hs, rfl⟩ | rfl
    · exact ⟨_, rfl, ⟨hstep _ hs, trivial⟩⟩
    · exact ⟨[], by simp, trivial⟩
  · intro p p' _ _ _ ihb iho h
    obtain ⟨-, c, -, hc, ⟨-, rfl⟩ | ⟨e, -, he, rfl⟩⟩ := visit_if_ok h
    · obtain ⟨nc, hnc, hpc⟩ := ihb hc
      simp only [WorkflowParser.child_steps, List.nil_append] at hnc
      exact ⟨_, rfl, ⟨⟨hcond _ _ _ _, hseq _, hnc ▸ hpc⟩, trivial⟩⟩
    · obtain ⟨nc, hnc, hpc⟩ := ihb hc
      obtain ⟨ne, hne, hpe⟩ := iho he
      simp only [WorkflowParser.child_steps, List.nil_append] at hnc hne
      exact ⟨_, rfl, ⟨⟨hcond _ _ _ _, ⟨hseq _, hnc ▸ hpc⟩, ⟨hseq _, hne ▸ hpe⟩⟩, trivial⟩⟩
  · intro p p' _ _ _ ihb h
    obtain ⟨-, c, -, hc, rfl⟩ := visit_for_ok h
    obtain ⟨nc, hnc, hpc⟩ := ihb hc
    simp only [List.nil_append] at hnc
    exact ⟨_, rfl, ⟨⟨hloop _ _ _, hseq _, hnc ▸ hpc⟩, trivial⟩⟩

end Restflow
