import DialogueScript.Proofs.Tree.Forest
import DialogueScript.Tree.EventLog
import Mathlib.Data.List.Basic

/-!
What the rules of a grammar mean by opening and closing nodes, and the discipline that they keep.
The trees can be built at once if nodes are put around others promptly.
-/

namespace DialogueScript

namespace MarkOp

def token? : MarkOp → Option Token
  | token t => some t
  | _ => none

/-- Each node is put around another right after that one has been completed; the flag says whether a
node has just been completed. -/
def Prompt : Bool → List MarkOp → Prop
  | _, [] => True
  | _, complete .. :: ops => Prompt true ops
  | completed, precede _ :: ops => completed = true ∧ Prompt false ops
  | _, _ :: ops => Prompt false ops

end MarkOp

/-- What is in an open node so far. -/
structure Level where
  trees : List Tree := []
  /-- The node that was completed last, as its marker and its place among the trees, unless another
  has been put around it. -/
  newest? : Option (Nat × Nat) := none
deriving DecidableEq

namespace Level

def add (l : Level) (t : Tree) : Level := { l with trees := l.trees ++ [t] }

def addNode (l : Level) (marker : Nat) (t : Tree) : Level :=
  ⟨l.trees ++ [t], some (marker, l.trees.length)⟩

/-- With what was in a node that has been given up. -/
def append (l m : Level) : Level where
  trees := l.trees ++ m.trees
  newest? :=
    match m.newest? with
    | some (marker, i) => some (marker, l.trees.length + i)
    | none => l.newest?

end Level

/-- The trees that are meant, while rules are running. -/
structure Plan where
  /-- How many markers have been handed out. -/
  markers : Nat := 0
  inner : Level := {}
  /-- The open nodes, innermost first: the marker of each, whether it was put around a completed
  one, and what is in the node around it. -/
  outer : List (Nat × Bool × Level) := []
deriving DecidableEq

namespace Plan

/-- What a rule that keeps the discipline may do, and what it means. Only the innermost open node is
completed or given up, a node is put around the one completed last here, together with the tokens
since then, and one that was put around another is not given up. -/
def step? (p : Plan) : MarkOp → Option Plan
  | .start => some ⟨p.markers + 1, {}, (p.markers, false, p.inner) :: p.outer⟩
  | .token t => some { p with inner := p.inner.add (.leaf t) }
  | .complete marker kind =>
    match p.outer with
    | (m, _, level) :: outer =>
      if m = marker ∧ kind ≠ .tombstone then
        some { p with inner := level.addNode marker (.node kind p.inner.trees), outer }
      else none
    | [] => none
  | .abandon marker =>
    match p.outer with
    | (m, false, level) :: outer =>
      if m = marker then some { p with inner := level.append p.inner, outer } else none
    | _ => none
  | .precede marker =>
    match p.inner.newest? with
    | some (m, i) =>
      if m = marker then
        some ⟨p.markers + 1, { trees := p.inner.trees.drop i },
          (p.markers, true, { trees := p.inner.trees.take i }) :: p.outer⟩
      else none
    | none => none

def run? (p : Plan) : List MarkOp → Option Plan
  | [] => some p
  | op :: ops => do (← p.step? op).run? ops

/-- The steps of the discipline, one by one. -/
inductive Steps (p : Plan) : MarkOp → Plan → Prop where
  | start : Steps p .start ⟨p.markers + 1, {}, (p.markers, false, p.inner) :: p.outer⟩
  | token (t : Token) : Steps p (.token t) { p with inner := p.inner.add (.leaf t) }
  | complete {marker : Nat} {kind : Kind} {level : Level} {outer : List (Nat × Bool × Level)}
    (b : Bool) (houter : p.outer = (marker, b, level) :: outer) (hkind : kind ≠ .tombstone) :
    Steps p (.complete marker kind)
      { p with inner := level.addNode marker (.node kind p.inner.trees), outer }
  | abandon {marker : Nat} {level : Level} {outer : List (Nat × Bool × Level)}
    (houter : p.outer = (marker, false, level) :: outer) :
    Steps p (.abandon marker) { p with inner := level.append p.inner, outer }
  | precede {marker i : Nat} (hnewest : p.inner.newest? = some (marker, i)) :
    Steps p (.precede marker) ⟨p.markers + 1, { trees := p.inner.trees.drop i },
      (p.markers, true, { trees := p.inner.trees.take i }) :: p.outer⟩

variable {p p' : Plan} {op : MarkOp} {ops : List MarkOp}

lemma steps_of_step? (h : p.step? op = some p') : p.Steps op p' := by
  cases op with
  | start =>
    obtain rfl := by simpa [step?] using h
    exact .start
  | token t =>
    obtain rfl := by simpa [step?] using h
    exact .token t
  | complete marker kind =>
    rcases houter : p.outer with _ | ⟨⟨m, b, level⟩, outer⟩
    · simp [step?, houter] at h
    · obtain ⟨⟨rfl, hkind⟩, rfl⟩ := by simpa [step?, houter] using h
      exact .complete b houter hkind
  | abandon marker =>
    rcases houter : p.outer with _ | ⟨⟨m, _ | _, level⟩, outer⟩
    · simp [step?, houter] at h
    · obtain ⟨rfl, rfl⟩ := by simpa [step?, houter] using h
      exact .abandon houter
    · simp [step?, houter] at h
  | precede marker =>
    rcases hnewest : p.inner.newest? with _ | ⟨m, i⟩
    · simp [step?, hnewest] at h
    · obtain ⟨rfl, rfl⟩ := by simpa [step?, hnewest] using h
      exact .precede hnewest

lemma run?_cons (h : p.run? (op :: ops) = some p') :
    ∃ next, p.Steps op next ∧ next.run? ops = some p' := by
  rw [run?, Option.bind_eq_bind, Option.bind_eq_some_iff] at h
  obtain ⟨next, hstep, hrest⟩ := h
  exact ⟨next, steps_of_step? hstep, hrest⟩

/-- The operations keep the discipline, close every node, and make one node around everything. -/
def Intended (ops : List MarkOp) (tree : Tree) : Prop :=
  ∃ p, run? {} ops = some p ∧ p.outer = [] ∧ p.inner.trees = [tree] ∧ tree.isNode

/-- All trees of a plan, those in the outermost node first. -/
def trees (p : Plan) : List Tree := p.outer.reverse.flatMap (·.2.2.trees) ++ p.inner.trees

/-- A token is added at the end, and nothing else changes the tokens or their order. -/
lemma tokens_step (h : p.Steps op p') :
    p'.trees.flatMap Tree.tokens = p.trees.flatMap Tree.tokens ++ op.token?.toList := by
  cases h with
  | start => simp [trees, MarkOp.token?]
  | token t => simp [trees, MarkOp.token?, Level.add]
  | complete b houter hkind => simp [trees, MarkOp.token?, houter, Level.addNode]
  | abandon houter => simp [trees, MarkOp.token?, houter, Level.append]
  | precede hnewest =>
    simp only [trees, MarkOp.token?, Option.toList_none, List.append_nil, List.reverse_cons,
      List.flatMap_append, List.flatMap_cons, List.flatMap_nil, List.append_assoc]
    rw [← List.flatMap_append, List.take_append_drop]

lemma tokens_run (h : p.run? ops = some p') :
    p'.trees.flatMap Tree.tokens = p.trees.flatMap Tree.tokens ++ ops.filterMap MarkOp.token? := by
  induction ops generalizing p with
  | nil =>
    obtain rfl : p = p' := by simpa [run?] using h
    simp
  | cons op ops ih =>
    obtain ⟨next, hstep, hrest⟩ := run?_cons h
    rw [ih hrest, tokens_step hstep, List.append_assoc]
    cases hop : op.token? <;> simp [hop]

/-- The tokens of an intended tree are those that were taken. -/
lemma Intended.tokens {tree : Tree} (h : Intended ops tree) :
    tree.tokens = ops.filterMap MarkOp.token? := by
  obtain ⟨p, hrun, houter, htrees, -⟩ := h
  simpa [trees, houter, htrees] using tokens_run hrun

end Plan

namespace Forest

/-- The trees under construction are those of a plan. -/
def Follows (f : Forest) (p : Plan) : Prop :=
  f = ⟨p.inner.trees.reverse, p.outer.map (·.2.2.trees.reverse)⟩

variable {p p' : Plan} {op : MarkOp} {ops : List MarkOp}

lemma follows_step (h : p.Steps op p')
    (hprompt : ∀ marker m i, op = .precede marker → p.inner.newest? = some (m, i) →
      i + 1 = p.inner.trees.length) :
    Follows (Forest.apply ⟨p.inner.trees.reverse, p.outer.map (·.2.2.trees.reverse)⟩ op) p' := by
  cases h with
  | start => simp [Follows, Forest.apply, Forest.start]
  | token t => simp [Follows, Forest.apply, Forest.add, Level.add]
  | complete b houter hkind =>
    simp [Follows, Forest.apply, Forest.complete, Forest.trees, houter, Level.addNode]
  | abandon houter => simp [Follows, Forest.apply, Forest.abandon, houter, Level.append]
  | @precede marker i hnewest =>
    have hlast := hprompt _ _ _ rfl hnewest
    obtain ⟨ts, t, hts⟩ : ∃ ts t, p.inner.trees = ts ++ [t] := by
      have hne : p.inner.trees ≠ [] := by
        intro hnil
        simp [hnil] at hlast
      exact ⟨_, _, (List.dropLast_append_getLast hne).symm⟩
    obtain rfl : i = ts.length := by simpa [hts] using hlast
    simp [Follows, Forest.apply, Forest.precede, hts]

/-- Where nodes are put around others promptly, the trees can be built at once. -/
lemma follows_run {f : Forest} {completed : Bool} (hf : f.Follows p)
    (hcompleted : completed = true → ∀ m i, p.inner.newest? = some (m, i) →
      i + 1 = p.inner.trees.length) (h : p.run? ops = some p')
    (hprompt : MarkOp.Prompt completed ops) :
    (ops.foldl Forest.apply f).Follows p' := by
  induction ops generalizing f p completed with
  | nil =>
    obtain rfl : p = p' := by simpa [Plan.run?] using h
    exact hf
  | cons op ops ih =>
    obtain ⟨next, hstep, hrest⟩ := Plan.run?_cons h
    have hf' : (f.apply op).Follows next := by
      rw [show f = _ from hf]
      refine follows_step hstep fun marker m i hop hnewest => ?_
      rw [hop] at hprompt
      exact hcompleted hprompt.1 m i hnewest
    rw [List.foldl_cons]
    cases hstep with
    | start => exact ih hf' (by simp) hrest hprompt
    | token t => exact ih hf' (by simp) hrest hprompt
    | complete b houter hkind =>
      refine ih hf' (fun _ m i hnewest => ?_) hrest hprompt
      obtain ⟨-, rfl⟩ : _ ∧ _ = i := by simpa [Level.addNode] using hnewest
      simp [Level.addNode]
    | abandon houter => exact ih hf' (by simp) hrest hprompt
    | precede hnewest => exact ih hf' (by simp) hrest hprompt.2

end Forest

end DialogueScript
