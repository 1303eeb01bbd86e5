import DialogueScript.Proofs.Grammar.Graded
import DialogueScript.Proofs.Grammar.Shape
import DialogueScript.Proofs.Tree.Unclosed

/-!
Each construct whose end is missing is reported once. The report is not made at a token that is
itself an error. Runs of statements never end at such a token, so the ends of chains and bodies are
reported in any case; only an enum can be left because of one, and then the next statement is that
error.
-/

set_option synthInstance.maxSize 4096

namespace DialogueScript

open DialogueScript.Tree

namespace Parser

open ParserState

variable {α β σ : Type} {ends : Bool}

/-! ### Rules that leave nothing open -/

/-- Trees in which every construct has its end, whatever the number of levels. -/
def SettledAt (_ : Nat) (t : Tree) : Prop := t.Settled

lemma settled_simple {k : Kind} {cs : List Tree} (h1 : k ≠ .error ∧ k ≠ .ifClause ∧ k ≠ .onceClause)
    (h2 : k ≠ .body) (h : ∀ c ∈ cs, c.Settled) : (Tree.node k cs).Settled :=
  settled_node (lacksEnd_node h1.1 cs) ⟨h2, h1.2⟩ h

instance : Tolerant Settled where
  leaf _ _ := ⟨rfl, rfl, by simp⟩
  name _ := settled_simple (by simp) (by simp)
  error _ h := settled_node (lacksEnd_error h) (by simp) fun c hc => (h c hc).1

instance : Graded SettledAt where
  leaf _ := Tolerant.leaf (P := Settled)
  node _ _ _ hk _ :=
    settled_simple
      ⟨Kind.ne_of_isSimple hk rfl, Kind.ne_of_isSimple hk rfl, Kind.ne_of_isSimple hk rfl⟩
      (Kind.ne_of_isSimple hk rfl)
  error _ := Tolerant.error (P := Settled)
  expr _ _ := ExprTree.closed (P := Settled) fun k cs hk => by
    refine settled_simple ⟨?_, ?_, ?_⟩ ?_ <;> rintro rfl <;> simp [Kind.isExprKind] at hk

instance (n : Nat) (mode : Mode) : Adds ends (SettledAt n) (advance mode) :=
  .advance mode fun _ => ⟨rfl, rfl, by simp⟩

/-! ### Counting -/

/-- The trees that are new, in the order of the text, and a report for each end that they owe. -/
structure Tallied (s u : ParserState) (zs : List Tree) : Prop where
  inner : u.forest.inner = zs.reverse ++ s.forest.inner
  missing : u.missing = s.missing + openEndsAll zs

lemma Tallied.append {s v u : ParserState} {xs ys : List Tree} (h : Tallied s v xs)
    (h' : Tallied v u ys) (hjoin : endsInEnum xs = false ∨ ys.head?.any startsInError = false) :
    Tallied s u (xs ++ ys) := by
  refine ⟨by rw [h'.inner, h.inner, List.reverse_append, List.append_assoc], ?_⟩
  rw [h'.missing, h.missing, openEndsAll_append_of hjoin, Nat.add_assoc]

lemma tallied_refl (s : ParserState) : Tallied s s [] := ⟨rfl, rfl⟩

lemma Tallied.look {s u : ParserState} {zs : List Tree} (h : Tallied s u zs) (mode : Mode) :
    Tallied s (u.look mode) zs := ⟨h.inner, h.missing⟩

lemma Tallied.of_look {s u : ParserState} {mode : Mode} {zs : List Tree}
    (h : Tallied (s.look mode) u zs) : Tallied s u zs := ⟨h.inner, h.missing⟩

/-- Nothing is new. -/
lemma Grown.tallied_nil {s u : ParserState} (h : Grown false (fun _ => False) s u) :
    Tallied s u [] := by
  obtain ⟨⟨ys, h1, h2⟩, h3⟩ := h
  obtain rfl : ys = [] := List.eq_nil_iff_forall_not_mem.2 h2
  exact ⟨h1, h3 rfl⟩

/-- Settled trees owe nothing. -/
lemma Grown.tallied {n : Nat} {s u : ParserState} (h : Grown false (SettledAt n) s u) :
    ∃ zs, Tallied s u zs ∧ ∀ z ∈ zs, z.Settled := by
  obtain ⟨⟨ys, h1, h2⟩, h3⟩ := h
  have hsettled : ∀ z ∈ ys.reverse, z.Settled := fun z hz => h2 z (List.mem_reverse.1 hz)
  refine ⟨ys.reverse, ⟨by rw [h1, List.reverse_reverse], ?_⟩, hsettled⟩
  rw [h3 rfl, openEndsAll_of_settled hsettled, Nat.add_zero]

/-- A rule that reports each end that it leaves out. -/
def Counts (p : Parser α) : Prop := ∀ ⦃s⦄, s.Good → s.Quiet → ∃ zs, Tallied s (p.after s) zs

/-- A rule that reports each end that it leaves out, and does not end with an enum without one. -/
def Calm (p : Parser α) : Prop :=
  ∀ ⦃s⦄, s.Good → s.Quiet → ∃ zs, Tallied s (p.after s) zs ∧ endsInEnum zs = false

lemma Calm.counts {p : Parser α} (h : Calm p) : Counts p :=
  fun _ hg hq => (h hg hq).imp fun _ => (·.1)

lemma Calm.of_adds (n : Nat) {p : Parser α} (h : Adds false (SettledAt n) p) : Calm p := by
  intro s hg _
  obtain ⟨zs, h1, h2⟩ := (h.grown hg).tallied
  exact ⟨zs, h1, endsInEnum_of_settled h2⟩

section
variable {p : Parser α} {f : α → Parser β}

lemma Calm.bind (hr : Readable p) (hp : Calm p) (hf : ∀ a, Calm (f a)) : Calm (p >>= f) := by
  intro s hg hq
  have hmid := Readable.follows p hg
  obtain ⟨xs, h1, h2⟩ := hp hg hq
  obtain ⟨ys, h3, h4⟩ := hf (p.answer s) hmid.good (hmid.quiet hq)
  exact ⟨xs ++ ys, h1.append h3 (.inl h2), endsInEnum_append h2 h4⟩

lemma Calm.bindCounts (hr : Readable p) (hp : Calm p) (hf : ∀ a, Counts (f a)) :
    Counts (p >>= f) := by
  intro s hg hq
  have hmid := Readable.follows p hg
  obtain ⟨xs, h1, h2⟩ := hp hg hq
  obtain ⟨ys, h3⟩ := hf (p.answer s) hmid.good (hmid.quiet hq)
  exact ⟨xs ++ ys, h1.append h3 (.inl h2)⟩

end

lemma Calm.loop {step : σ → Parser (ForInStep σ)} (hr : ∀ a, Reading (step a))
    (h : ∀ a, Calm (step a)) (a : σ) : Calm (loop step a) := by
  intro s hg hq
  refine (loop_keeps hr (I := fun _ u => u.Quiet ∧ ∃ zs, Tallied s u zs ∧ endsInEnum zs = false)
    (fun a u hu ⟨hq', xs, h1, h2⟩ => ?_) hg ⟨hq, [], tallied_refl s, rfl⟩).2
  obtain ⟨ys, h3, h4⟩ := h a hu hq'
  exact ⟨((hr a).follows hu).quiet hq', xs ++ ys, h1.append h3 (.inl h2), endsInEnum_append h2 h4⟩

/-- A node of what a rule takes. -/
lemma tallied_complete {p : Parser α} (hr : Reading p) {s : ParserState} (hg : s.Good)
    {cs : List Tree} (hinner : (p.after s.start).forest.inner = cs.reverse) {k : Kind}
    (hmissing : (p.after s.start).missing =
      s.missing + ((Tree.node k cs).lacksEnd.toNat + openEndsAll cs)) :
    Tallied s ((p.after s.start).complete k) [.node k cs] := by
  have htrees : (p.after s.start).forest.trees = cs := by
    rw [Forest.trees, hinner, List.reverse_reverse]
  refine ⟨by rw [hr.inner_complete hg, htrees]; rfl, ?_⟩
  simpa [openEndsAll, openEnds, owesEnd] using hmissing

/-- The node of a construct that has its end. -/
lemma Counts.inNode {k : Kind} (hk : k ≠ .error) {p : Parser α} (hr : Readable p) (hp : Counts p)
    {s : ParserState} (hg : s.Good) (hq : s.Quiet) :
    ∃ cs, Tallied s ((Parser.node k p).after s) [.node k cs] := by
  obtain ⟨cs, h1, h2⟩ := hp (good_start hg) (quiet_start hq)
  refine ⟨cs, tallied_complete hr.reads hg (by simpa [ParserState.start, Forest.start] using h1) ?_⟩
  rw [lacksEnd_node hk, h2]
  simp

lemma Counts.node {k : Kind} (hk : k ≠ .error) {p : Parser α} (hr : Readable p) (hp : Counts p) :
    Calm (Parser.node k p) := by
  intro s hg hq
  obtain ⟨cs, h⟩ := hp.inNode hk hr hg hq
  exact ⟨_, h, by simp [endsInEnum, isOpenEnum_node hk]⟩

/-! ### Statements -/

/-- An enum was left at a token that is an error. -/
def pending (zs : List Tree) (u : ParserState) : Nat :=
  (endsInEnum zs && u.kindAt .statement = .errorToken).toNat

/-- What is new where a statement can start. One report can be left to the next statement. -/
structure Told (s u : ParserState) (zs : List Tree) : Prop where
  inner : u.forest.inner = zs.reverse ++ s.forest.inner
  missing : u.missing + pending zs u = s.missing + openEndsAll zs

/-- What a statement does: it starts in an error just if the next token is one. -/
def Stated (s u : ParserState) : Prop :=
  ∃ zs, Told s u zs ∧ (zs.head?.any startsInError = true ↔ s.kindAt .statement = .errorToken) ∧
    (zs = [] → u.kindAt .statement ≠ .errorToken)

lemma Stated.of_look {s u : ParserState} (h : Stated (s.look .statement) u) : Stated s u := by
  obtain ⟨zs, h1, h2, h3⟩ := h
  rw [kindAt_look] at h2
  exact ⟨zs, ⟨h1.inner, h1.missing⟩, h2, h3⟩

/-- A statement makes the report that is left to it. -/
lemma Told.append {s v u : ParserState} {xs : List Tree} (h : Told s v xs) (h' : Stated v u) :
    ∃ zs, Told s u zs := by
  obtain ⟨ys, ⟨h1, h2⟩, h3, h4⟩ := h'
  refine ⟨xs ++ ys, by rw [h1, h.inner, List.reverse_append, List.append_assoc], ?_⟩
  have hjoin : (endsInEnum xs && ys.head?.any startsInError).toNat = pending xs v := by
    unfold pending
    congr 2
    rw [Bool.eq_iff_iff, h3, decide_eq_true_eq]
  have hpending : pending (xs ++ ys) u = pending ys u := by
    cases ys with
    | nil => simp [pending, h4 rfl]
    | cons y ys =>
      have hlast : endsInEnum (xs ++ y :: ys) = endsInEnum (y :: ys) := by
        rw [endsInEnum, List.getLast?_append_of_ne_nil _ (by simp), endsInEnum]
      rw [pending, hlast, pending]
  have happend := openEndsAll_append xs ys
  have hmissing := h.missing
  omega

lemma Tallied.told {s u : ParserState} {zs : List Tree} (h : Tallied s u zs)
    (hlast : endsInEnum zs = false) : Told s u zs :=
  ⟨h.inner, by simp [pending, hlast, h.missing]⟩

/-- A node that is not left open. -/
lemma Tallied.stated {s u : ParserState} {k : Kind} {cs : List Tree} (h : Tallied s u [.node k cs])
    (henum : (Tree.node k cs).isOpenEnum = false) (herror : (Tree.node k cs).startsInError = false)
    (hs : s.kindAt .statement ≠ .errorToken) : Stated s u :=
  ⟨_, h.told (by simpa [endsInEnum] using henum), by simp [herror, hs], by simp⟩

/-- Settled trees after a first one. -/
lemma Grown.stated {n : Nat} {s u : ParserState} (h : Grown false (SettledAt n) s u) {t : Tree}
    {ts : List Tree} (ht : u.forest.inner = ts ++ t :: s.forest.inner)
    (hstart : t.startsInError = true ↔ s.kindAt .statement = .errorToken) : Stated s u := by
  obtain ⟨zs, h1, h2⟩ := h.tallied
  have hzs : zs.reverse = ts ++ [t] := by
    refine List.append_cancel_right (h1.inner.symm.trans ?_)
    rw [ht, List.append_assoc, List.singleton_append]
  obtain rfl : zs = t :: ts.reverse := by simpa using congrArg List.reverse hzs
  exact ⟨_, h1.told (endsInEnum_of_settled h2), by simpa using hstart, by simp⟩

/-- A node that starts with the next token. -/
lemma inner_advanceNode {k : Kind} {mode : Mode} {q : Parser β} {P : Tree → Prop} (hq : Readable q)
    (hadds : Adds true P q) {s : ParserState} (hg : s.Good) (hk : s.kindAt mode ≠ .eof) :
    ∃ token cs, token.kind = s.kindAt mode ∧
      ((Parser.node k (advance mode >>= fun _ => q)).after s).forest.inner =
        .node k (.leaf token :: cs) :: s.forest.inner := by
  have hstart := good_start hg
  have hreads : Reading (advance mode >>= fun _ => q) := .bind Rule.reads fun _ => hq.reads
  obtain ⟨ys, h1, -⟩ := (hadds.grown (hstart.take mode)).inner
  have hadvance : (advance mode).after s.start = s.start.take mode := by
    rw [hstart.after_advance, if_neg (by rwa [kindAt_start])]
  refine ⟨_, ys.reverse, rfl, ?_⟩
  rw [after_node, hreads.inner_complete hg, after_bind, hadvance, Forest.trees, h1]
  simp [ParserState.take, Forest.add, ParserState.start, Forest.start]

section
variable {n : Nat} {s : ParserState} (hg : s.Good)
include hg

/-- A rule that makes a node without an error. -/
lemma stated_node {k : Kind} (hk : k ≠ .error) {p : Parser α} [hr : Readable p]
    (h : Adds false (SettledAt n) (Parser.node k p)) (hs : s.kindAt .statement ≠ .errorToken) :
    Stated s ((Parser.node k p).after s) := by
  have hinner : ((Parser.node k p).after s).forest.inner =
      [] ++ .node k (p.after s.start).forest.trees :: s.forest.inner := hr.reads.inner_complete hg k
  exact (h.grown hg).stated hinner (by simp [startsInError_node hk, hs])

/-- A report that is no missing end leaves the statement where it is. -/
lemma Stated.of_error {m : String} {u : ParserState} (h : Stated ((error .statement m).after s) u) :
    Stated s u := by
  obtain ⟨zs, h1, h2, h3⟩ := h
  have hsame := (Adds.grow false (fun _ => False) (error .statement m) hg).tallied_nil
  rw [error, (Good.kindAt_errorOf hg ..).1] at h2
  exact ⟨zs, ⟨h1.inner.trans (by rw [hsame.inner]; rfl),
    h1.missing.trans (by rw [hsame.missing]; rfl)⟩, h2, h3⟩

/-- An error that starts with the next token, and what comes behind it. -/
lemma stated_errorNode {q : Parser α} {r : Parser β} [Readable q] [Readable r]
    [Adds false (ErrorPart (SettledAt 0)) q] [Adds true (ErrorPart (SettledAt 0)) q]
    [Adds false (SettledAt 0) r] (hk : s.kindAt .statement ≠ .eof) :
    Stated s ((Parser.node .error (advance .statement >>= fun _ => q) >>= fun _ => r).after s) := by
  have hadds :
      Adds false (SettledAt 0)
      (Parser.node .error (advance .statement >>= fun _ => q) >>= fun _ => r) :=
    inferInstance
  obtain ⟨token, cs, h1, h2⟩ :=
    inner_advanceNode (k := .error) (q := q) (P := ErrorPart (SettledAt 0))
    inferInstance inferInstance hg hk
  obtain ⟨ts, h3, -⟩ := (Adds.grow false (SettledAt 0) r
    (Readable.follows (Parser.node .error (advance .statement >>= fun _ => q)) hg).good).inner
  exact (hadds.grown hg).stated (h3.trans (by rw [h2])) (by simp [startsInError, h1])

/-- Nothing but a line break is taken. -/
lemma stated_eatNewline (hk : s.kindAt .statement ≠ .errorToken) :
    Stated s (eatNewline.after s) := by
  have hafter : eatNewline.after s = (eat .text .newline).after s := rfl
  rw [hafter, hg.after_eat .text (by simp)]
  split
  · have hmissing := hg.missing_take .text
    refine ⟨[.leaf _], ⟨rfl, ?_⟩, by simp [startsInError, hk], by simp⟩
    simp [pending, endsInEnum, isOpenEnum, openEndsAll, openEnds, owesEnd, lacksEnd, hmissing]
  · have hkind : (s.look .text).kindAt .statement = s.kindAt .statement := by
      rw [kindAt, ParserState.look, Scanner.ahead_looking_of_insensitive rfl, kindAt]
    exact ⟨[], ⟨rfl, rfl⟩, by simp [hk], fun _ => by rwa [hkind]⟩

/-- The rest of the line becomes an error. -/
lemma stated_skipLine : Stated s ((skipLine .statement >>= fun _ => eatNewline).after s) := by
  have hlook := hg.look .statement
  rw [skipLine, after_bind, after_bind, hg.answer_isAtLineEnd, hg.after_isAtLineEnd]
  refine Stated.of_look ?_
  by_cases hend : s.kindAt .statement = .newline ∨ s.kindAt .statement = .eof
  · have hcond :
        (!(decide (s.kindAt .statement = .newline) || decide (s.kindAt .statement = .eof))) =
        false := by
      simpa using or_iff_not_imp_left.1 hend
    rw [hcond, if_neg (by simp), after_pure]
    refine stated_eatNewline hlook ?_
    rw [kindAt_look]
    rcases hend with h | h <;> simp [h]
  · obtain ⟨h1, h2⟩ := not_or.1 hend
    have herror :=
      stated_errorNode hlook (q := advanceLine) (r := eatNewline) (by rwa [kindAt_look])
    rw [after_bind] at herror
    rwa [if_pos (by simp [h1, h2])]

lemma stated_errorLine (m : String) :
    Stated s ((errorLine .statement m >>= fun _ => eatNewline).after s) := by
  have hsplit : (errorLine .statement m >>= fun _ => eatNewline) =
      error .statement m >>= fun _ => skipLine .statement >>= fun _ => eatNewline := by
    unfold errorLine
    simp only [bind_assoc]
  rw [hsplit, after_bind]
  exact .of_error hg (stated_skipLine (Rule.good (error .statement m) hg))

lemma stated_strayClause (keyword : Kind) (hk : s.kindAt .statement ≠ .eof) :
    Stated s ((strayClause keyword).after s) := by
  unfold strayClause
  dsimp only
  rw [after_bind]
  refine .of_error hg (stated_errorNode (Rule.good (error .statement _) hg) ?_)
  rwa [error, (Good.kindAt_errorOf hg ..).1]

lemma stated_nothingTaken : Stated s (nothingTaken.after s) := by
  have hlook := hg.look .statement
  rw [nothingTaken, after_bind, hg.answer_isAt, hg.after_isAt]
  refine Stated.of_look ?_
  by_cases hk : s.kindAt .statement = .eof
  · rw [decide_eq_true hk, if_neg (by simp), after_pure]
    exact ⟨[], ⟨rfl, rfl⟩, by simp [hk], by simp [hk]⟩
  · have herror := stated_errorNode (Rule.good (error .statement "expected a statement") hlook)
      (q := pure ()) (r := pure (ForInStep.yield ())) (by
        rwa [error, (Good.kindAt_errorOf hlook ..).1, kindAt_look])
    rw [after_bind, bind_pure_unit] at herror
    rw [decide_eq_false hk, if_pos (by simp), after_bind, after_bind]
    exact .of_error hlook herror

end

/-! ### Runs of statements, blocks and groups -/

/-- A rule for a statement. -/
class States (p : Parser Unit) : Prop where
  stated : ∀ ⦃s⦄, s.Good → s.Quiet → Stated s (p.after s)

section
variable (statement : KindSet → Parser Unit) [∀ t, Rule (statement t)] [∀ t, States (statement t)]
  (terminators : KindSet)

lemma told_statementStep {s u : ParserState} {zs : List Tree} (hg : u.Good) (hq : u.Quiet)
    (h : Told s u zs) : ∃ zs, Told s ((statementStep terminators statement).after u) zs := by
  have hf := Rule.follows (statement terminators) hg
  obtain ⟨xs, hu⟩ := h.append (States.stated (p := statement terminators) hg hq)
  rw [statementStep, Parser.after, run_ifStuck]
  split
  · exact hu.append (stated_nothingTaken hf.good)
  · exact ⟨xs, hu⟩

/-- A run of statements ends where nothing is pending. -/
lemma told_listStep {s u : ParserState} {zs : List Tree} (hg : u.Good) (hq : u.Quiet)
    (h : Told s u zs) :
    ((listStep terminators statement).answer u = .done () ∧
      ∃ zs, Tallied s ((listStep terminators statement).after u) zs) ∨
    ((listStep terminators statement).answer u = .yield () ∧
      ∃ zs, Told s ((listStep terminators statement).after u) zs) := by
  obtain ⟨hafter, hends⟩ := run_endsStatements terminators hg
  have hlook : Told s (u.look .statement) zs := ⟨h.inner, by simpa [pending] using h.missing⟩
  rw [listStep, answer_bind, after_bind, (Quiet.poll hq).1, (Quiet.poll hq).2, if_neg (by simp),
    answer_bind, after_bind, hafter]
  split
  · next hc =>
    have hk : u.kindAt .statement ≠ .errorToken := by
      rcases hends.1 hc with (hk | hk | hk | hk) | ⟨hk, -⟩ <;> simp [hk]
    refine .inl ⟨rfl, zs, h.inner, ?_⟩
    simpa [pending, hk] using hlook.missing
  · exact .inr ⟨answer_statementStep terminators statement _,
      told_statementStep statement terminators (hg.look _) ⟨hq.never, hq.running⟩ hlook⟩

lemma counts_statementList : Counts (statementList statement terminators) := by
  intro s hg hq
  have hstep : ∀ ⦃_ : Unit⦄ ⦃v : ParserState⦄, v.Good ∧ v.Quiet ∧ (∃ zs, Told s v zs) → ∀ ⦃b⦄,
      (listStep terminators statement).answer v = .yield b →
        ((listStep terminators statement).after v).scanner.budget < v.scanner.budget ∧
        ((listStep terminators statement).after v).Good ∧
        ((listStep terminators statement).after v).Quiet ∧
        ∃ zs, Told s ((listStep terminators statement).after v) zs := by
    rintro a v ⟨h1, h2, zs, h3⟩ b hb
    have hf := Rule.follows (listStep terminators statement) h1
    refine ⟨(advances_listStep terminators statement (a := a) h1 trivial hb).1, hf.good,
      hf.quiet h2, ?_⟩
    rcases told_listStep statement terminators h1 h2 h3 with ⟨h, -⟩ | ⟨-, h⟩
    · rw [h] at hb
      simp at hb
    · exact h
  obtain ⟨_, u, ⟨h1, h2, zs, h3⟩, h4, h5⟩ := loop_ends (a := ())
    (I := fun _ u => u.Good ∧ u.Quiet ∧ ∃ zs, Told s u zs) hstep ⟨hg, hq, [], rfl, rfl⟩
  rw [statementList, after_bind, after_pure, h5]
  rcases told_listStep statement terminators h1 h2 h3 with ⟨-, h⟩ | ⟨h, -⟩
  · exact h
  · rw [h] at h4
    simp at h4

/-- A token that is expected, or the report that it is missing. -/
lemma Counts.expect {p : Parser α} (hr : Readable p) (hp : Counts p) (mode : Mode) {kind : Kind}
    (hk : kind ≠ .eof) (m : String) :
    Counts (p >>= fun _ => expect mode kind m >>= fun _ => pure ()) := by
  intro s hg hq
  obtain ⟨zs, h⟩ := hp hg hq
  have hu := (Readable.follows p hg).good
  rw [after_bind, after_bind, after_pure, Good.after_expect hu mode hk]
  split
  · refine ⟨zs ++ [.leaf _], h.append ⟨rfl, ?_⟩ (.inr rfl)⟩
    simp [hu.missing_take, openEndsAll, openEnds, owesEnd, lacksEnd]
  · have hsame := (Adds.grow false (fun _ => False) (error mode m)
      (hu.look mode)).of_look.tallied_nil
    exact ⟨zs ++ [], h.append hsame (.inr rfl)⟩

lemma tallied_block {s : ParserState} (hg : s.Good) (hq : s.Quiet) :
    ∃ cs, Tallied s ((block statement).after s) [.node .block cs] := by
  have hlist := (counts_statementList statement .empty).expect inferInstance .statement
    (show Kind.dedent ≠ .eof by simp) "expected the end of the indented block"
  exact Counts.inNode (by simp) inferInstance
    (Calm.bindCounts inferInstance (.of_adds 0 (p := advance .statement) inferInstance) fun _ =>
      hlist) hg hq

lemma calm_block : Calm (block statement) := by
  intro s hg hq
  obtain ⟨cs, h⟩ := tallied_block statement hg hq
  exact ⟨_, h, by simp [endsInEnum, isOpenEnum]⟩

variable (levels : Nat)

lemma calm_groupItem (mode : Mode) {kind : Kind} (hk : kind ≠ .error) :
    Calm (groupItem levels statement mode kind) := by
  have hhead : Adds false (SettledAt levels) (itemHead levels mode) := by
    unfold itemHead
    infer_instance
  have hisAt : Adds false (SettledAt 0) (isAt .statement .indent) := inferInstance
  rw [groupItem]
  refine Counts.node hk inferInstance
    (Calm.bind inferInstance (.of_adds _ hhead) fun _ => ?_).counts
  refine .bind inferInstance (.of_adds _ hisAt) fun b => ?_
  have hpure (b : Bool) : Calm (pure b : Parser Bool) := .of_adds 0 inferInstance
  cases b
  · exact hpure false
  · exact .bind inferInstance (calm_block statement) fun _ => hpure true

lemma tallied_group (lineGroup : Bool) {s : ParserState} (hg : s.Good) (hq : s.Quiet) :
    ∃ k cs, k ≠ .error ∧ Tallied s ((group levels statement lineGroup).after s) [.node k cs] := by
  have htail (mode : Mode) : Adds false (SettledAt 0) (groupTail lineGroup mode) := by
    unfold groupTail eat
    infer_instance
  have hstep (mode : Mode) : Calm (groupStep statement levels lineGroup mode) := by
    refine .bind inferInstance (calm_groupItem statement levels mode (by cases lineGroup <;> simp))
      fun _ s hg hq => ?_
    rw [after_get_bind]
    exact Calm.of_adds 0 (htail _) hg hq
  have hloop := Calm.loop (fun _ => Rule.reads) hstep Mode.statement
  have hk : (if lineGroup then Kind.lineGroup else Kind.shortcutOptionGroup) ≠ .error := by
    cases lineGroup <;> simp
  unfold group
  obtain ⟨cs, h⟩ :=
    Counts.inNode hk inferInstance
    (p := loop (groupStep statement levels lineGroup) Mode.statement >>=
    fun _ => pure ()) (Calm.bind inferInstance hloop fun _ => .of_adds 0 inferInstance).counts hg hq
  exact ⟨_, cs, hk, h⟩

end

/-! ### Ends -/

lemma missing_errorOf {s : ParserState} (hg : s.Good) (hq : s.Quiet) (m : String) :
    ((errorOf .statement .missingEndMarker m).after s).missing +
      (decide (s.kindAt .statement = .errorToken)).toNat = s.missing + 1 := by
  have hrunning : (s.look .statement).cancelled = false := hq.running
  rw [hg.after_errorOf]
  by_cases hk : s.kindAt .statement = .errorToken
  · simp [hk]
  · simp only [hk, if_false, decide_false, Bool.toNat_false, ParserState.report, hrunning,
      ParserState.missing, List.countP_append, Bool.false_eq_true]
    rfl

/-- What the end of a construct does: it is there, or it is reported unless the next token is an
error. -/
lemma closeWith_spec {s : ParserState} (hg : s.Good) (hq : s.Quiet) (keyword kind : Kind)
    (m : String) :
    ((closeWith keyword kind m).answer s = kind ∧
      Grown false (SettledAt 0) s ((closeWith keyword kind m).after s)) ∨
    ((closeWith keyword kind m).answer s = .error ∧
      ((closeWith keyword kind m).after s).forest.inner = s.forest.inner ∧
      ((closeWith keyword kind m).after s).kindAt .statement = s.kindAt .statement ∧
      ((closeWith keyword kind m).after s).missing +
        (decide (s.kindAt .statement = .errorToken)).toNat = s.missing + 1) := by
  have hlook := hg.look .statement
  rw [closeWith, answer_bind, after_bind, hg.answer_peekCommand, hg.after_peekCommand]
  split
  · have hadds :
        Adds false (SettledAt 0) (commandStart >>= fun _ => commandClose >>= fun _ => pure kind) :=
      inferInstance
    refine .inl ⟨?_, (hadds.grown hlook).of_look⟩
    rw [answer_bind, answer_bind, answer_pure]
  · have hmissing := missing_errorOf hlook ⟨hq.never, hq.running⟩ m
    refine .inr ⟨?_, ?_, ?_, ?_⟩
    · rw [answer_bind, answer_pure]
    all_goals rw [after_bind, after_pure]
    · rw [(Good.errorOf_keeps hlook ..).2]
      rfl
    · rw [(Good.kindAt_errorOf hlook ..).1, kindAt_look]
    · simpa using hmissing

/-! ### Chains -/

/-- Trees that are nodes without an error. -/
def AllNodes (zs : List Tree) : Prop := ∀ z ∈ zs, ∃ k cs, z = .node k cs ∧ k ≠ .error

lemma AllNodes.append {xs ys : List Tree} (hx : AllNodes xs) (hy : AllNodes ys) :
    AllNodes (xs ++ ys) :=
  List.forall_mem_append.2 ⟨hx, hy⟩

lemma AllNodes.endsInEnum {zs : List Tree} (h : AllNodes zs) : endsInEnum zs = false := by
  unfold Tree.endsInEnum
  cases hlast : zs.getLast? with
  | none => rfl
  | some z =>
    obtain ⟨k, cs, rfl, hk⟩ := h z (List.mem_of_getLast? hlast)
    simpa using isOpenEnum_node hk cs

lemma AllNodes.isOpenEnum {zs : List Tree} (h : AllNodes zs) (k : Kind) :
    (Tree.node k zs).isOpenEnum = false := by
  unfold Tree.isOpenEnum
  split
  · next heq =>
    cases heq
    refine List.any_eq_false.2 fun z hz => ?_
    obtain ⟨k, cs, rfl, -⟩ := h z hz
    simp [isTokenOf]
  · rfl

/-- The clauses of a chain so far. They end where no error stands. -/
structure Linked (first : Kind) (s u : ParserState) : Prop where
  quiet : u.Quiet
  clauses : ∃ cs zs, Tallied s u (.node first cs :: zs) ∧ AllNodes (.node first cs :: zs)
  kind : u.kindAt .statement ≠ .errorToken

/-- A rule for a clause, or for none. It ends where no error stands. -/
def Links (p : Parser α) : Prop := ∀ ⦃s⦄, s.Good → s.Quiet → s.kindAt .statement ≠ .errorToken →
  (∃ zs, Tallied s (p.after s) zs ∧ AllNodes zs) ∧ (p.after s).kindAt .statement ≠ .errorToken

section
variable {first kind keyword : Kind} {m : String} (hfirst : first = .ifClause ∨ first = .onceClause)
  (hkind : kind ≠ .error)
include hfirst hkind

/-- A chain whose clauses are read: its end is there, or its end is reported. -/
lemma linked_closeWith (keyword : Kind) (m : String) {s u : ParserState} (hg : u.Good)
    (h : Linked first s u) :
    ∃ cs, ((closeWith keyword kind m).after u).forest.inner = cs.reverse ++ s.forest.inner ∧
      ((closeWith keyword kind m).after u).missing = s.missing +
        ((Tree.node ((closeWith keyword kind m).answer u) cs).lacksEnd.toNat + openEndsAll cs) ∧
      (Tree.node ((closeWith keyword kind m).answer u) cs).isOpenEnum = false ∧
      (Tree.node ((closeWith keyword kind m).answer u) cs).startsInError = false := by
  obtain ⟨hq, ⟨cs, zs, h1, h2⟩, hk⟩ := h
  rcases closeWith_spec hg hq keyword kind m with ⟨ha, hgrown⟩ | ⟨ha, hinner, -, hmissing⟩ <;>
    rw [ha]
  · obtain ⟨ys, h3, -⟩ := hgrown.tallied
    have hall := h1.append h3 (.inl h2.endsInEnum)
    refine ⟨_, hall.inner, ?_, isOpenEnum_node hkind _, startsInError_node hkind _⟩
    rw [hall.missing, lacksEnd_node hkind]
    simp
  · have hopen : (Tree.node .error (.node first cs :: zs)).lacksEnd = true := by
      rcases hfirst with rfl | rfl <;> simp [lacksEnd, isOpening]
    refine ⟨_, hinner.trans h1.inner, ?_, h2.isOpenEnum _, rfl⟩
    rw [hopen, Bool.toNat_true, ← Nat.add_assoc, Nat.add_right_comm, ← h1.missing]
    simpa [hk] using hmissing

/-- **Each chain that has no end is reported.** -/
lemma stated_chain {p : Parser Unit} {step : Bool → Parser (ForInStep Bool)} [Rule p]
    [∀ b, Rule (step b)]
    (hp : ∀ ⦃s⦄, s.Good → s.Quiet → (∃ cs, Tallied s (p.after s) [.node first cs]) ∧
      (p.after s).kindAt .statement ≠ .errorToken) (hstep : ∀ b, Links (step b)) {s : ParserState}
    (hg : s.Good) (hq : s.Quiet) (hs : s.kindAt .statement ≠ .errorToken) :
    Stated s ((nodeOf (p >>= fun _ => loop step false >>= fun _ => closeWith keyword kind m)).after
      s) := by
  have hstart := good_start hg
  have hf := Rule.follows p hstart
  obtain ⟨⟨cs, h1⟩, h2⟩ := hp hstart (quiet_start hq)
  have hne : first ≠ .error := by rcases hfirst with rfl | rfl <;> simp
  have hlinked : Linked first s.start (p.after s.start) :=
    ⟨hf.quiet (quiet_start hq), ⟨cs, [], h1, by simpa [AllNodes] using hne⟩, h2⟩
  have hloop : Linked first s.start ((loop step false).after (p.after s.start)) := by
    refine loop_keeps (I := fun _ u => Linked first s.start u) (fun _ => Rule.reads)
      (fun b u hu h => ?_) hf.good hlinked
    obtain ⟨hq', ⟨cs', zs, h3, h4⟩, h5⟩ := h
    obtain ⟨⟨ys, h6, h7⟩, h8⟩ := hstep b hu hq' h5
    exact ⟨(Rule.follows (step b) hu).quiet hq', ⟨cs', zs ++ ys, h3.append h6 (.inl h4.endsInEnum),
      h4.append h7⟩, h8⟩
  have hgood := (Readable.follows (loop step false) hf.good).good
  have hreads : Reading (p >>= fun _ => loop step false >>= fun _ => closeWith keyword kind m) :=
    .bind Rule.reads fun _ => .bind (.loop (fun _ => Rule.reads) _) fun _ => Rule.reads
  obtain ⟨ds, h3, h4, h5, h6⟩ := linked_closeWith hfirst hkind keyword m hgood hloop
  rw [after_nodeOf]
  exact (tallied_complete hreads hg (h3.trans (List.append_nil _)) h4).stated h5 h6 hs

end

section
variable (statement : KindSet → Parser Unit) [∀ t, Rule (statement t)] [∀ t, States (statement t)]
  (levels : Nat) (terminators : KindSet)

omit [∀ t, States (statement t)] in
/-- A run of statements does not end at an error. -/
lemma kindAt_statementList {s : ParserState} (hg : s.Good) (hq : s.Quiet) :
    ((statementList statement terminators).after s).kindAt .statement ≠ .errorToken := by
  have hrunning := ((Rule.follows (statementList statement terminators) hg).quiet hq).running
  rcases statementList_ends terminators statement hg with h | (h | h | h | h) | ⟨h, -⟩
  · simp [hrunning] at h
  all_goals simp [h]

/-- A clause: its first line and its statements. -/
lemma tallied_clause {head : Parser Unit} [Rule head] (hhead : Adds false (SettledAt levels) head)
    {kind : Kind} (hk : kind ≠ .error) {s : ParserState} (hg : s.Good) (hq : s.Quiet) :
    (∃ cs, Tallied s ((Parser.node kind (head >>= fun _ =>
      statementList statement terminators)).after s) [.node kind cs]) ∧
    ((Parser.node kind (head >>= fun _ => statementList statement terminators)).after s).kindAt
      .statement ≠ .errorToken := by
  have hf := Rule.follows head (good_start hg)
  refine ⟨Counts.inNode hk inferInstance
    (Calm.bindCounts inferInstance (.of_adds levels hhead) fun _ =>
    counts_statementList statement terminators) hg hq, ?_⟩
  rw [after_node, kindAt_complete, after_bind]
  exact kindAt_statementList statement terminators hf.good (hf.quiet (quiet_start hq))

omit [∀ t, Rule (statement t)] [∀ t, States (statement t)] in
lemma adds_clauseHead (conditional : Bool) :
    Adds false (SettledAt levels) (clauseHead levels conditional) := by
  unfold clauseHead clauseCommand
  dsimp only
  infer_instance

lemma links_clause (afterElse : Bool) (m : String) {kind : Kind} (hk : kind ≠ .error)
    (conditional : Bool) (b : Bool) : Links (ambiguous afterElse m >>= fun _ =>
      clause levels statement kind conditional terminators >>= fun _ =>
        pure (ForInStep.yield b)) := by
  intro s hg hq _
  have hadds : Adds false (fun _ => False) (ambiguous afterElse m) := by
    have : Adds false (fun _ => False) (errorOf .statement .unresolvedAmbiguity m) :=
      .errorOf .statement (.inr (by simp)) m
    unfold ambiguous
    infer_instance
  have hf := Rule.follows (ambiguous afterElse m) hg
  obtain ⟨⟨cs, h1⟩, h2⟩ :=
    tallied_clause statement levels terminators (adds_clauseHead levels conditional)
    hk hf.good (hf.quiet hq)
  rw [after_bind, after_bind, after_pure, clause_eq]
  exact ⟨⟨_, (hadds.grown hg).tallied_nil.append h1 (.inl rfl), by simpa [AllNodes] using hk⟩, h2⟩

omit [∀ t, Rule (statement t)] [∀ t, States (statement t)] in
lemma links_pure (a : α) : Links (pure a : Parser α) :=
  fun s _ _ hk => ⟨⟨[], tallied_refl s, by simp [AllNodes]⟩, hk⟩

omit [∀ t, Rule (statement t)] [∀ t, States (statement t)] in
lemma links_peekCommand {f : Option Kind → Parser α} (h : ∀ k, Links (f k)) :
    Links (peekCommand .statement >>= f) := by
  intro s hg hq hk
  rw [after_bind, hg.answer_peekCommand, hg.after_peekCommand]
  obtain ⟨⟨zs, h1, h2⟩, h3⟩ :=
    h (s.commandAt .statement) (hg.look .statement) ⟨hq.never, hq.running⟩ (by rwa [kindAt_look])
  exact ⟨⟨zs, h1.of_look, h2⟩, h3⟩

lemma stated_ifStatement {s : ParserState} (hg : s.Good) (hq : s.Quiet)
    (hs : s.kindAt .statement ≠ .errorToken) :
    Stated s ((ifStatement levels statement terminators).after s) := by
  have hstep (b : Bool) : Links (ifStep statement levels (terminators.union ifTerminators) b) := by
    refine links_peekCommand fun keyword => ?_
    split
    · exact links_clause statement levels _ b _ (by simp) true b
    · exact links_clause statement levels _ b _ (by simp) false true
    · exact links_pure _
  rw [ifStatement, after_bind, after_pure]
  refine stated_chain (.inl rfl) (by simp) (fun u hu hq' => ?_) hstep hg hq hs
  rw [clause_eq]
  exact tallied_clause statement levels _ (adds_clauseHead levels true) (by simp) hu hq'

lemma stated_onceStatement {s : ParserState} (hg : s.Good) (hq : s.Quiet)
    (hs : s.kindAt .statement ≠ .errorToken) :
    Stated s ((onceStatement levels statement terminators).after s) := by
  have hhead : Adds false (SettledAt levels) (onceHead levels) := by
    unfold onceHead onceCommand
    dsimp only
    infer_instance
  have hstep (b : Bool) :
      Links (onceStep statement levels (terminators.union onceTerminators) b) := by
    refine links_peekCommand fun keyword => ?_
    split
    · exact links_clause statement levels _ b _ (by simp) false true
    · exact links_pure _
  rw [onceStatement, after_bind, after_pure]
  refine stated_chain (.inr rfl) (by simp) (fun u hu hq' => ?_) hstep hg hq hs
  rw [onceClause_eq]
  exact tallied_clause statement levels _ hhead (by simp) hu hq'

end

/-! ### Enums -/

/-- Blocks of cases leave nothing open. -/
lemma settled_block {levels : Nat} (cs : List Tree) (h : ∀ c ∈ cs, SettledAt levels c) :
    SettledAt levels (.node .block cs) :=
  settled_node (lacksEnd_node (by simp) cs) (by simp) h

/-- How an enum ends: with its end, with a report, or at an error. -/
lemma enumTail_spec (levels : Nat) {s : ParserState} (hg : s.Good) (hq : s.Quiet) :
    ((enumTail levels).answer s = .enumStmt ∧ ((enumTail levels).after s).missing = s.missing) ∨
    ((enumTail levels).answer s = .error ∧ ((enumTail levels).after s).missing +
      (decide (((enumTail levels).after s).kindAt .statement = .errorToken)).toNat =
        s.missing + 1) := by
  have (cases : Nat) : Adds false (SettledAt levels) (enumStep levels cases) :=
    adds_enumStep levels (fun _ h => h) settled_block cases
  have hcases : Adds false (SettledAt levels) (enumCases levels) := by
    unfold enumCases
    infer_instance
  have hf := Rule.follows (enumCases levels) hg
  have hmissing := (hcases.grown hg).missing rfl
  rw [enumTail, answer_bind, after_bind, ← hmissing]
  generalize (enumCases levels).after s = u at *
  rcases closeWith_spec hf.good (hf.quiet hq) .endenumKw .enumStmt "expected `<<endenum>>`" with
    ⟨ha, h⟩ | ⟨ha, -, hk, h⟩
  · exact .inl ⟨ha, h.missing rfl⟩
  · exact .inr ⟨ha, by rwa [hk]⟩

/-- **An enum that has no end is reported**, or the next statement is an error. -/
lemma stated_enumCommand {levels : Nat} {s : ParserState} (hg : s.Good) (hq : s.Quiet)
    (hk : s.commandAt .statement = some .enumKw) : Stated s ((enumCommand levels).after s) := by
  have hstart := good_start hg
  have hf := Rule.follows enumHead hstart
  have hs : s.kindAt .statement ≠ .errorToken := by simp [kindAt_of_commandAt hk]
  have hhead : Adds false (SettledAt levels) enumHead := by
    unfold enumHead enumName
    infer_instance
  have hreads : Reading (enumHead >>= fun _ => enumTail levels) := Rule.reads
  have htail : Adds true (SettledAt levels) (enumTail levels) := adds_enumTail levels settled_block
  obtain ⟨mark, keyword, cs, h1, h2, h3, h4⟩ :=
    enum_children levels hg (Graded.leaf levels) htail hk
  have hmissing : (enumHead.after s.start).missing = s.missing := (hhead.grown hstart).missing rfl
  have hspec := enumTail_spec levels hf.good (hf.quiet (quiet_start hq))
  have hcount := openEndsAll_of_settled h4
  have hinner : (((enumHead >>= fun _ => enumTail levels).after s.start).complete
      ((enumTail levels).answer (enumHead.after s.start))).forest.inner =
        .node ((enumTail levels).answer (enumHead.after s.start))
          (.leaf mark :: .leaf keyword :: cs) :: s.forest.inner := by
    rw [hreads.inner_complete hg, h3]
  rw [hmissing] at hspec
  rw [enumCommand, after_bind, after_pure, after_nodeOf, answer_bind]
  refine ⟨[.node _ (.leaf mark :: .leaf keyword :: cs)], ⟨hinner, ?_⟩, ?_, by simp⟩
  · rw [missing_complete, after_bind, pending, kindAt_complete]
    rcases hspec with ⟨ha, h⟩ | ⟨ha, h⟩ <;> rw [ha]
    · simp [endsInEnum, isOpenEnum, openEndsAll, openEnds, owesEnd, lacksEnd] at hcount ⊢
      omega
    · simp [endsInEnum, isOpenEnum, isTokenOf, openEndsAll, openEnds, owesEnd, lacksEnd,
        isOpening, h2] at hcount h ⊢
      omega
  · rcases hspec with ⟨ha, -⟩ | ⟨ha, -⟩ <;> rw [ha]
    · simp [startsInError, hs]
    · simp [startsInError, h1, hs]

/-! ### All statements -/

section
variable (statement : KindSet → Parser Unit) [∀ t, Rule (statement t)] [∀ t, States (statement t)]
  (levels : Nat) (terminators : KindSet)

omit [∀ t, Rule (statement t)] [∀ t, States (statement t)] in
/-- The commands that hold no statements. -/
lemma stated_simpleCommand {s : ParserState} (hg : s.Good)
    (hs : s.kindAt .statement ≠ .errorToken) :
    Stated s ((setCommand levels).after s) ∧ Stated s ((callCommand levels).after s) ∧
      Stated s ((declareCommand levels).after s) ∧ Stated s ((jumpCommand levels).after s) ∧
      Stated s (returnCommand.after s) ∧ Stated s ((freeCommand levels).after s) := by
  have h1 : Adds false (SettledAt levels) (setCommand levels) := inferInstance
  have h2 : Adds false (SettledAt levels) (callCommand levels) := inferInstance
  have h3 : Adds false (SettledAt levels) (declareCommand levels) := inferInstance
  have h4 : Adds false (SettledAt levels) (jumpCommand levels) := inferInstance
  have h5 : Adds false (SettledAt levels) returnCommand := inferInstance
  have h6 : Adds false (SettledAt levels) (freeCommand levels) := inferInstance
  unfold setCommand at h1 ⊢
  rw [callCommand] at h2 ⊢
  unfold declareCommand at h3 ⊢
  unfold jumpCommand at h4 ⊢
  unfold returnCommand at h5 ⊢
  unfold freeCommand at h6 ⊢
  exact ⟨stated_node hg (by simp) h1 hs, stated_node hg (by simp) h2 hs,
    stated_node hg (by simp) h3 hs,
    stated_node hg (by simp) h4 hs, stated_node hg (by simp) h5 hs, stated_node hg (by simp) h6 hs⟩

lemma stated_command {s : ParserState} (hg : s.Good) (hq : s.Quiet)
    (hk : s.kindAt .statement = .commandStart) :
    Stated s ((command levels statement terminators).after s) := by
  have hlook := hg.look .statement
  have hquiet : (s.look .statement).Quiet := ⟨hq.never, hq.running⟩
  have hs : (s.look .statement).kindAt .statement ≠ .errorToken := by simp [hk]
  obtain ⟨hset, hcall, hdeclare, hjump, hreturn, hfree⟩ := stated_simpleCommand levels hlook hs
  rw [command, after_bind, hg.answer_peekCommand, hg.after_peekCommand]
  refine Stated.of_look ?_
  split
  · exact stated_ifStatement statement levels terminators hlook hquiet hs
  · exact stated_onceStatement statement levels terminators hlook hquiet hs
  · exact hset
  · exact hcall
  · exact hdeclare
  · exact hjump
  · exact hjump
  · exact hreturn
  · next hc => exact stated_enumCommand hlook hquiet ((commandAt_look s _).trans hc)
  · split
    · exact stated_strayClause hlook _ (by simp [hk])
    · exact hfree
  · exact hfree

lemma stated_statementOf {s : ParserState} (hg : s.Good) (hq : s.Quiet) :
    Stated s ((statementOf levels statement terminators).after s) := by
  have hlook := hg.look .statement
  have hquiet : (s.look .statement).Quiet := ⟨hq.never, hq.running⟩
  have hkind := kindAt_look s .statement
  rw [statementOf, after_bind, hg.answer_peekKind, hg.after_peekKind]
  refine Stated.of_look ?_
  split
  · next hk =>
    obtain ⟨cs, h⟩ := tallied_block statement hlook hquiet
    exact h.stated rfl rfl (by simp [hkind, hk])
  · next hk =>
    obtain ⟨k, cs, hne, h⟩ := tallied_group statement levels false hlook hquiet
    exact h.stated (isOpenEnum_node hne _) (startsInError_node hne _) (by simp [hkind, hk])
  · next hk =>
    obtain ⟨k, cs, hne, h⟩ := tallied_group statement levels true hlook hquiet
    exact h.stated (isOpenEnum_node hne _) (startsInError_node hne _) (by simp [hkind, hk])
  · next hk => exact stated_command statement levels terminators hlook hquiet (hkind.trans hk)
  · exact stated_skipLine hlook
  · next hk =>
    have hline : Adds false (SettledAt levels) (line levels .statement) := inferInstance
    rw [line] at hline ⊢
    dsimp only at hline ⊢
    exact stated_node hlook (by simp) hline (by rwa [hkind])

end

instance states_statement (levels : Nat) (terminators : KindSet) :
    States (statement levels terminators) := by
  induction levels generalizing terminators with
  | zero =>
    rw [statement]
    exact ⟨fun _ hg _ => stated_errorLine hg _⟩
  | succ levels ih =>
    rw [statement]
    exact ⟨fun _ hg hq => stated_statementOf _ _ _ hg hq⟩

end Parser

end DialogueScript
