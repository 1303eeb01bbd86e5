import DialogueScript.Proofs.Tree.Plan

/-!
The record of what was done with a tree while it was built at once. As long as the discipline is
kept, the record is a run of a plan, and the trees under construction are those of the plan.
-/

namespace DialogueScript

namespace MarkOp

variable {ops : List MarkOp} {op : MarkOp} {completed : Bool}

def isComplete : MarkOp → Bool
  | complete .. => true
  | _ => false

/-- Whether a node has just been completed behind some operations; the flag says whether one has
been in front of them. -/
def completes (completed : Bool) (ops : List MarkOp) : Bool :=
  (ops.getLast?.map isComplete).getD completed

lemma completes_cons : completes completed (op :: ops) = completes op.isComplete ops := by
  rcases ops.eq_nil_or_concat with rfl | ⟨ops, last, rfl⟩ <;> simp [completes, List.getLast?_cons]

lemma prompt_cons : Prompt completed (op :: ops) ↔
    (∀ marker, op = .precede marker → completed = true) ∧ Prompt op.isComplete ops := by
  cases op <;> simp [Prompt, isComplete]

/-- One more operation. -/
lemma prompt_concat : Prompt completed (ops ++ [op]) ↔ Prompt completed ops ∧
    ∀ marker, op = .precede marker → completes completed ops = true := by
  induction ops generalizing completed with
  | nil => cases op <;> simp [Prompt, completes]
  | cons first ops ih =>
    rw [List.cons_append, prompt_cons, prompt_cons, ih, completes_cons, and_assoc]

end MarkOp

namespace Plan

variable {p p' : Plan} {ops : List MarkOp} {op : MarkOp}

lemma run?_concat (h : run? p ops = some p') : run? p (ops ++ [op]) = p'.step? op := by
  induction ops generalizing p with
  | nil =>
    obtain rfl : p = p' := by simpa [run?] using h
    cases hstep : p.step? op <;> simp [run?, hstep]
  | cons first ops ih =>
    rw [run?, Option.bind_eq_bind, Option.bind_eq_some_iff] at h
    obtain ⟨next, hfirst, hrest⟩ := h
    rw [List.cons_append, run?, hfirst]
    exact ih hrest

lemma step?_precede {marker i : Nat} (h : p.inner.newest? = some (marker, i)) :
    p.step? (.precede marker) = some ⟨p.markers + 1, { trees := p.inner.trees.drop i },
      (p.markers, true, { trees := p.inner.trees.take i }) :: p.outer⟩ := by
  simp [step?, h]

lemma step?_complete {marker : Nat} {b : Bool} {level : Level} {outer : List (Nat × Bool × Level)}
    (h : p.outer = (marker, b, level) :: outer) {k : Kind} (hk : k ≠ .tombstone) :
    p.step? (.complete marker k) =
      some { p with inner := level.addNode marker (.node k p.inner.trees), outer } := by
  simp [step?, h, hk]

lemma step?_abandon {marker : Nat} {level : Level} {outer : List (Nat × Bool × Level)}
    (h : p.outer = (marker, false, level) :: outer) :
    p.step? (.abandon marker) = some { p with inner := level.append p.inner, outer } := by
  simp [step?, h]

end Plan

namespace Record

/-- The last thing that was done was to complete a node. -/
def Fresh (r : Record) : Prop := MarkOp.completes false r.operations = true

lemma fresh_complete (r : Record) (k : Kind) : (r.complete k).Fresh := by
  simp [Fresh, MarkOp.completes, operations, complete, MarkOp.isComplete]

end Record

/-- The trees under construction with further levels around them. -/
def Forest.lift (f : Forest) (base : List (List Tree)) : Forest := ⟨f.inner, f.outer ++ base⟩

/-- So far the discipline has been kept. The levels `base` are those of nodes that were opened
before the first of the trees. -/
structure Tracks (base : List (List Tree)) (f : Forest) (r : Record) (p : Plan) : Prop where
  run : Plan.run? {} r.operations = some p
  prompt : MarkOp.Prompt false r.operations
  markers : r.markers = p.markers
  opened : r.opened = p.outer.map (·.1)
  forest : (f.lift base).Follows p
  recent : r.Fresh → ∃ i, p.inner.newest? = some (r.completed, i) ∧ i + 1 = p.inner.trees.length

namespace Tracks

variable {base : List (List Tree)} {f f' : Forest} {r r' : Record} {p p' : Plan} {op : MarkOp}
  {marker : Nat} {level : Level} {outer : List (Nat × Bool × Level)}

/-- Nothing has been done yet. -/
lemma nil : Tracks [] {} {} {} := ⟨rfl, trivial, rfl, rfl, rfl, nofun⟩

lemma outer_eq (h : Tracks base f r p) : f.outer ++ base = p.outer.map (·.2.2.trees.reverse) :=
  congrArg Forest.outer h.forest

/-- The trees of the innermost open node. -/
lemma trees_eq (h : Tracks base f r p) : p.inner.trees = f.trees := by
  have hinner : f.inner = p.inner.trees.reverse := congrArg Forest.inner h.forest
  rw [Forest.trees, hinner, List.reverse_reverse]

/-- **One operation more.** It has to be the next one of the plan, and do with the trees what it
means. -/
lemma step (h : Tracks base f r p) (hstep : p.step? op = some p')
    (hnewest : r'.newest = op :: r.newest) (hprompt : ∀ marker, op = .precede marker → r.Fresh)
    (hforest : f'.lift base = (f.lift base).apply op) (hmarkers : r'.markers = p'.markers)
    (hopened : r'.opened = p'.outer.map (·.1))
    (hrecent : r'.Fresh → ∃ i, p'.inner.newest? = some (r'.completed, i) ∧
      i + 1 = p'.inner.trees.length) :
    Tracks base f' r' p' := by
  have hops : r'.operations = r.operations ++ [op] := by
    rw [Record.operations, hnewest, List.reverse_cons]
    rfl
  refine ⟨?_, ?_, hmarkers, hopened, ?_, hrecent⟩
  · rw [hops, Plan.run?_concat h.run, hstep]
  · rw [hops]
    exact MarkOp.prompt_concat.2 ⟨h.prompt, hprompt⟩
  · rw [hforest, show f.lift base = _ from h.forest]
    refine Forest.follows_step (Plan.steps_of_step? hstep) fun marker m i hop hnewest => ?_
    obtain ⟨j, hj, hlast⟩ := h.recent (hprompt marker hop)
    obtain rfl : j = i := by simpa [hj] using congrArg (Option.map Prod.snd) hnewest
    exact hlast

lemma start (h : Tracks base f r p) :
    Tracks base f.start r.start ⟨p.markers + 1, {}, (p.markers, false, p.inner) :: p.outer⟩ := by
  refine h.step rfl rfl (by simp) rfl ?_ ?_ ?_
  · simp [Record.start, h.markers]
  · simp [Record.start, h.markers, h.opened]
  · simp [Record.Fresh, Record.operations, Record.start, MarkOp.completes, MarkOp.isComplete]

lemma token (h : Tracks base f r p) (t : Token) :
    Tracks base (f.add (.leaf t)) (r.token t) { p with inner := p.inner.add (.leaf t) } := by
  refine h.step rfl rfl (by simp) rfl h.markers h.opened ?_
  simp [Record.Fresh, Record.operations, Record.token, MarkOp.completes, MarkOp.isComplete]

/-- The innermost open node is one that the record has opened. -/
lemma innermost (h : Tracks base f r p) {b : Bool}
    (houter : p.outer = (marker, b, level) :: outer) :
    r.innermost = marker := by
  rw [Record.innermost, h.opened, houter]
  rfl

/-- The level around the innermost one is not one of the base. -/
lemma exists_outer (h : Tracks base f r p) {b : Bool}
    (houter : p.outer = (marker, b, level) :: outer) (hbase : base.length ≤ outer.length) :
    ∃ newest rest, f.outer = newest :: rest := by
  refine List.exists_cons_of_ne_nil fun hnil => ?_
  have := congrArg List.length h.outer_eq
  simp [hnil, houter] at this
  omega

lemma complete (h : Tracks base f r p) {b : Bool} (houter : p.outer = (marker, b, level) :: outer)
    (hbase : base.length ≤ outer.length) {k : Kind} (hk : k ≠ .tombstone) :
    Tracks base (f.complete k) (r.complete k)
      { p with inner := level.addNode marker (.node k p.inner.trees), outer } := by
  have hinnermost := h.innermost houter
  refine h.step (Plan.step?_complete houter hk) ?_ (by simp) ?_ h.markers ?_ fun _ => ?_
  · simp [Record.complete, hinnermost]
  · obtain ⟨newest, rest, hrest⟩ := h.exists_outer houter hbase
    simp [Forest.lift, Forest.apply, Forest.complete, Forest.trees, hrest]
  · simp [Record.complete, h.opened, houter]
  · exact ⟨level.trees.length, by simp [Level.addNode, Record.complete, hinnermost],
      by simp [Level.addNode]⟩

lemma abandon (h : Tracks base f r p) (houter : p.outer = (marker, false, level) :: outer)
    (hbase : base.length ≤ outer.length) :
    Tracks base f.abandon r.abandon { p with inner := level.append p.inner, outer } := by
  have hinnermost := h.innermost houter
  refine h.step (Plan.step?_abandon houter) ?_ (by simp) ?_ h.markers ?_ ?_
  · simp [Record.abandon, hinnermost]
  · obtain ⟨newest, rest, hrest⟩ := h.exists_outer houter hbase
    simp [Forest.lift, Forest.apply, Forest.abandon, hrest]
  · simp [Record.abandon, h.opened, houter]
  · simp [Record.Fresh, Record.operations, Record.abandon, MarkOp.completes, MarkOp.isComplete]

/-- A node is put around the one that has just been completed. -/
lemma precede (h : Tracks base f r p) (hfresh : r.Fresh) : ∃ level inner,
    Tracks base f.precede r.precede
      ⟨p.markers + 1, inner, (p.markers, true, level) :: p.outer⟩ := by
  obtain ⟨i, hnewest, hlast⟩ := h.recent hfresh
  refine ⟨{ trees := p.inner.trees.take i }, { trees := p.inner.trees.drop i },
    h.step (Plan.step?_precede hnewest) rfl (fun _ _ => hfresh) ?_ ?_ ?_ ?_⟩
  · have hne : f.inner ≠ [] := by
      intro hnil
      have hinner : p.inner.trees.reverse = f.inner := (congrArg Forest.inner h.forest).symm
      rw [hnil, List.reverse_eq_nil_iff] at hinner
      simp [hinner] at hlast
    obtain ⟨newest, rest, hrest⟩ := List.exists_cons_of_ne_nil hne
    simp [Forest.lift, Forest.apply, Forest.precede, hrest]
  · simp [Record.precede, h.markers]
  · simp [Record.precede, h.markers, h.opened]
  · simp [Record.Fresh, Record.operations, Record.precede, MarkOp.completes, MarkOp.isComplete]

end Tracks

end DialogueScript
