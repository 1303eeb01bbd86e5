import DialogueScript.Proofs.Statement.Chains
import DialogueScript.Proofs.Tree.Height

/-!
Reading the cases of an enum whose lines are indented further and further. Each line opens a block
in that of the line before it.
-/

namespace DialogueScript

open DialogueScript.Parser DialogueScript.Scanner ParserState

/-! ### A place with a bound on the text in front -/

/-- The scanner is at the place `q`, in front of at most `n` characters. -/
def Scanner.Bounded (n : Nat) (q : Scanner → Prop) (s : Scanner) : Prop := q s ∧ s.rest.length ≤ n

namespace Parser

section
variable {α : Type} {n : Nat} {q q' : Scanner → Prop} {pre : List Tree} {p : Parser α} {a : α}
  {V : List Tree → Prop}

lemma Course.bounded (hp : Reading p) (h : Course (Bounded n q) pre p a V q') :
    Course (Bounded n q) pre p a V (Bounded n q') := by
  intro s base hs hi
  obtain ⟨h1, ⟨hgood, hquiet, hhere⟩, h3⟩ := h hs hi
  exact ⟨h1, ⟨hgood, hquiet, hhere, (hp.follows hs.good).suffix.length_le.trans hs.here.2⟩, h3⟩

lemma Faces.bounded {mode : Mode} {k : Kind} (h : Faces mode k q) : Faces mode k (Bounded n q) where
  kind _ hs := h.kind ⟨hs.good, hs.quiet, hs.here.1⟩
  look _ hs := by
    obtain ⟨hgood, hquiet, hhere⟩ := h.look ⟨hs.good, hs.quiet, hs.here.1⟩
    exact ⟨hgood, hquiet, hhere, (Follows.look hs.good mode).suffix.length_le.trans hs.here.2⟩

end

end Parser

variable {j j' n levels : Nat} {name r c : Text} {pre : List Tree}

/-! ### A case -/

/-- The first line of a case. -/
lemma enumCase_course (hname : isWord name = true) (hr : LineOf j' c r) (hj : j' ≤ j + 1) :
    Course (LineAt j j (commandContent .caseKw (' ' :: name) r)) pre (enumCase levels) ()
      (fun ts => ∃ us, ts = pre ++ [.node .enumCase us]) (LineAt j j' c) := by
  have htext : commandContent .caseKw (' ' :: name) r =
      "<<".toList ++ (Kind.caseKw.chars ++ ([' '] ++ (name ++ (">>".toList ++ '\n' :: r)))) := by
    simp [commandContent]
  have hname' : Offers .name .ident name (Midline (.nested j) (name ++ (">>".toList ++ '\n' :: r)))
      (Midline (.nested j) (">>".toList ++ '\n' :: r)) := offers_commandName hname
  have hend : Faces .command .commandEnd (Midline (.nested j) (">>".toList ++ '\n' :: r)) := by
    have : Faces .command .commandEnd (Midline (.nested j) (">>".toList ++ [] ++ '\n' :: r)) :=
      Midline.faces (facing_commandEnd (.inr (.inr rfl)))
    rwa [List.append_nil] at this
  rw [htext]
  unfold enumCase eatEquals
  refine (Course.node .enumCase (V := fun _ => True) ?_).mono ?_
  · refine (commandStart_course (by decide) rfl ?_ (unspaced_word hname _)).bind ?_
    · rintro _ ⟨⟩
      decide
    rintro _ ⟨t1, t2, -, -, rfl⟩
    refine (Term.name_course hname' nameRecovery).step ?_
    rintro _ ⟨t3, -, -, rfl⟩
    simp only [bind_assoc]
    refine (Course.eat_other hend (by decide) (by decide)).bind ?_
    rintro _ rfl
    rw [if_neg (by decide)]
    refine (Course.eat_other hend (by decide) (by decide)).bind ?_
    rintro _ rfl
    rw [if_neg (by decide)]
    exact (commandClose_course hr hj).mono fun _ _ => trivial
  · rintro _ ⟨us, -, rfl⟩
    exact ⟨us, rfl⟩

/-- A step of a block of cases over a case. -/
lemma caseStep_case (hname : isWord name = true) (hr : LineOf j' c r) (hj : j' ≤ j + 1)
    (inner : Parser Nat) (cases : Nat) :
    Course (LineAt j j (commandContent .caseKw (' ' :: name) r)) pre (caseStep levels inner cases)
      (.yield (cases + 1)) (fun ts => ∃ us, ts = pre ++ [.node .enumCase us]) (LineAt j j' c) := by
  unfold caseStep
  refine Course.peekKind (Passage.faces_command (by decide) _ _) ?_
  refine Passage.Course.peekKeyword (by decide) rfl ?_
  rw [if_pos rfl]
  refine (enumCase_course hname hr hj).bind ?_
  rintro _ ⟨us, rfl⟩
  exact .pure ⟨us, rfl⟩

/-- A block of cases ends in front of a line that is in fewer blocks. -/
lemma caseStep_dedent (hj : j' < j) (inner : Parser Nat) (cases : Nat) :
    Course (LineAt j j' c) pre (caseStep levels inner cases) (.done cases) (· = pre)
      (LineAt j j' c) := by
  have hfaces : Faces .statement (kindOf j j' c) (LineAt j j' c) := LineAt.faces rfl (by omega)
  rw [kindOf_of_lt hj] at hfaces
  exact Course.peekKind hfaces (.pure rfl)

/-! ### Blocks inside each other -/

/-- Cases of which the first one is in `j` blocks and each is in one block more than the one
before. -/
def casesText (name : Text) (j : Nat) : Nat → Text
  | 0 => []
  | n + 1 => commandLine j .caseKw (' ' :: name) ++ casesText name (j + 1) n

/-- What the first of `n + 1` cases starts with, up to the end of the text. -/
def casesContent (name : Text) (j n : Nat) (r : Text) : Text :=
  commandContent .caseKw (' ' :: name) (casesText name (j + 1) n ++ r)

lemma lineOf_cases (hj : 4 * j ≤ IndentStack.maxWidth) (name : Text) (n : Nat) (r : Text) :
    LineOf j (casesContent name j n r) (casesText name j (n + 1) ++ r) := by
  rw [casesText, List.append_assoc]
  exact lineOf_commandLine .caseKw _ _ hj

/-- The trees behind `pre` are a block in which at least `n` blocks stand inside each other, itself
included. -/
def IsDeep (n : Nat) (pre ts : List Tree) : Prop :=
  ∃ us, ts = pre ++ [.node .block us] ∧ n ≤ (Tree.node .block us).height (decide <| · = .block)

/-- The token that opens a block leaves less text in front. -/
lemma offers_indent_bounded : Offers .statement .indent [] (Bounded (n + 1) (LineAt j (j + 1) c))
    (Bounded n (LineAt (j + 1) (j + 1) c)) where
  toFaces := (LineAt.offers_indent rfl).toFaces.bounded
  take s h := by
    have hat : s.At (LineAt j (j + 1) c) := ⟨h.good, h.quiet, h.here.1⟩
    have hindent : Offers .statement .indent [] (LineAt j (j + 1) c) (LineAt (j + 1) (j + 1) c) :=
      LineAt.offers_indent rfl
    obtain ⟨htake, hrest⟩ := hindent.take hat
    have hlt := length_take_indent h.good (hindent.kind hat)
    have hlength := h.here.2
    exact ⟨⟨htake.good, htake.quiet, htake.here, by omega⟩, hrest⟩

/-- A line is not empty. -/
lemma bounded_pos {d : Nat} {s : Scanner} (h : Bounded n (LineAt d j c) s) : n ≠ 0 := by
  rintro rfl
  obtain ⟨b, -, hrest⟩ := h.1.rest
  have hlength := h.2
  have hc := List.length_pos_iff.2 h.1.content.ne_nil
  rw [hrest, List.length_append] at hlength
  omega

section
variable {nesting m : Nat}

/-- A step of a block of cases over the block of the next case. -/
lemma caseStep_block {cases : Nat} {V : List Tree → Prop}
    (h : Course (Bounded nesting (LineAt j (j + 1) c)) pre (caseBlock levels nesting) m V
      (LineAt j j' r)) :
    Course (Bounded nesting (LineAt j (j + 1) c)) pre
      (caseStep levels (caseBlock levels nesting) cases) (.yield (cases + m)) V (LineAt j j' r) :=
  Course.peekKind (LineAt.offers_indent rfl).toFaces.bounded (h.bind fun _ hts => .pure hts)

/-- One step of a block of cases, where nothing is at the end of a line. -/
lemma caseLoop_bind {α : Type} {b : α} {cases cases' : Nat} {q q' : Scanner → Prop}
    {f : Nat → Parser α} {k : Kind} {V W : List Tree → Prop} (hfaces : Faces .statement k q)
    (hk : k ≠ .newline)
    (h : Course (Bounded nesting q) pre (caseStep levels (caseBlock levels nesting) cases)
      (.yield cases') V q')
    (hf : ∀ ts, V ts →
      Course (Bounded nesting q') ts
      (loop (caseStep levels (caseBlock levels nesting)) cases' >>= f) b W (LineAt j j' c)) :
    Course (Bounded nesting q) pre
      (loop (caseStep levels (caseBlock levels nesting)) cases >>= f) b W (LineAt j j' c) := by
  have hreads := reading_caseStep levels (reading_caseBlock levels nesting)
  refine Course.loop_yield_bind (fun x _ hg => ((hreads x).follows hg).good)
    (advances_caseStep levels (caseBlock_spec levels nesting)) (fun s hs => ⟨hs.here.2, ?_⟩)
    (h.bounded (hreads cases)) hf
  rwa [hfaces.bounded.kind hs]

/-- A block with a case, behind which `rest` is read. -/
lemma caseBlock_of_rest (hname : isWord name = true) {j₂ : Nat} {c₂ r₂ : Text}
    (hline : LineOf j₂ c₂ r₂) (hj₂ : j₂ ≤ j + 2) (hj : j' ≤ j) {V : List Tree → Prop}
    (hrest : Course (Bounded nesting (LineAt (j + 1) j₂ c₂)) []
      (loop (caseStep levels (caseBlock levels nesting)) 1) m V (LineAt (j + 1) j' c)) :
    Course (Bounded (nesting + 1) (LineAt j (j + 1) (commandContent .caseKw (' ' :: name) r₂))) pre
      (caseBlock levels (nesting + 1)) m
      (fun ts => ∃ us vs, V vs ∧ (∀ v ∈ vs, v ∈ us) ∧ ts = pre ++ [.node .block us])
      (LineAt j j' c) := by
  have hdedent : Offers .statement .dedent [] (LineAt (j + 1) j' c) (LineAt j j' c) :=
    LineAt.offers_dedent rfl hj
  rw [caseBlock]
  refine (Course.node .block (V := fun us => ∃ vs, V vs ∧ ∀ v ∈ vs, v ∈ us) ?_).mono ?_
  · unfold caseRun
    refine (Course.advance offers_indent_bounded (by decide)).bind ?_
    rintro _ ⟨t1, -, -, rfl⟩
    refine caseLoop_bind (Passage.faces_command (by decide) _ _) (by decide)
      ((caseStep_case hname hline (by omega) _ 0).enter fun _ h => h.1) ?_
    rintro _ ⟨us, rfl⟩
    refine hrest.step fun vs hvs => ?_
    refine (Course.expect hdedent (by decide) _).bind ?_
    rintro _ ⟨t2, -, -, rfl⟩
    exact .pure ⟨vs, hvs, fun v hv => by simp [hv]⟩
  · rintro _ ⟨us, ⟨vs, hvs, hmem⟩, rfl⟩
    exact ⟨us, vs, hvs, hmem, rfl⟩

end

/-- **Each case opens a block** in that of the case before it. -/
lemma caseBlock_course (hname : isWord name = true) : ∀ (n nesting : Nat) {j : Nat}
    {pre : List Tree}, 4 * (j + 1 + n) ≤ IndentStack.maxWidth → LineOf j' c r → j' ≤ j →
      Course (Bounded nesting (LineAt j (j + 1) (casesContent name (j + 1) n r))) pre
        (caseBlock levels nesting) (n + 1) (IsDeep (n + 1) pre) (LineAt j j' c) := by
  intro n
  induction n with
  | zero =>
    rintro (_ | nesting) j pre hw hr hj
    · exact fun s base hs _ => absurd rfl (bounded_pos hs.here)
    refine (caseBlock_of_rest hname hr (by omega) hj (V := fun _ => True)
      (((caseStep_dedent (by omega) _ 1).loop_done.enter fun _ h => h.1).mono
        fun _ _ => trivial)).mono ?_
    rintro _ ⟨us, vs, -, -, rfl⟩
    exact ⟨us, rfl, by simp [Tree.height]⟩
  | succ n ih =>
    rintro (_ | nesting) j pre hw hr hj
    · exact fun s base hs _ => absurd rfl (bounded_pos hs.here)
    have hinner : Course _ [] (caseBlock levels nesting) (n + 1) (IsDeep (n + 1) [])
        (LineAt (j + 1) j' c) := ih nesting (j := j + 1) (by omega) hr (by omega)
    have hindent : Faces .statement .indent
        (LineAt (j + 1) (j + 2) (casesContent name (j + 2) n r)) :=
      (LineAt.offers_indent rfl).toFaces
    have hrest : Course (Bounded nesting (LineAt (j + 1) (j + 2) (casesContent name (j + 2) n r)))
        [] (loop (caseStep levels (caseBlock levels nesting)) 1 >>= pure) (1 + (n + 1))
        (IsDeep (n + 1) []) (LineAt (j + 1) j' c) := by
      refine caseLoop_bind hindent (by decide) (caseStep_block hinner) fun ts hts => ?_
      rw [bind_pure]
      refine ((caseStep_dedent (by omega) _ _).loop_done.enter fun _ h => h.1).mono ?_
      rintro _ rfl
      exact hts
    rw [bind_pure, Nat.add_comm 1] at hrest
    refine (caseBlock_of_rest hname (lineOf_cases (by omega) name n r) le_rfl hj hrest).mono ?_
    rintro _ ⟨us, vs, ⟨ds, rfl, hdeep⟩, hmem, rfl⟩
    refine ⟨us, rfl, ?_⟩
    have := Tree.height_lt_node (p := (decide <| · = Kind.block)) (hmem (.node .block ds) (by simp))
      (k := .block) rfl
    omega

/-! ### The enum around them -/

/-- A step of an enum over the block that its first case opens. -/
lemma enumStep_block (hname : isWord name = true) (hw : 4 * (n + 1) ≤ IndentStack.maxWidth)
    (hr : LineOf 0 c r) (cases : Nat) :
    Course (LineAt 0 1 (casesContent name 1 n r)) pre (enumStep levels cases)
      (.yield (cases + (n + 1))) (IsDeep (n + 1) pre) (LineAt 0 0 c) := by
  have hindent : Faces .statement .indent (LineAt 0 1 (casesContent name 1 n r)) :=
    (LineAt.offers_indent rfl).toFaces
  have hhere : Course (LineAt 0 1 (casesContent name 1 n r)) pre (casesHere levels) (n + 1)
      (IsDeep (n + 1) pre) (LineAt 0 0 c) := fun s _ hs hi =>
    -- the text in front of the block bounds how deep it can be
    caseBlock_course hname n s.scanner.rest.length (by omega) hr le_rfl
      ⟨hs.good, hs.quiet, hs.here, le_rfl⟩ hi
  exact Course.poll (Course.peekKind hindent (hhere.bind fun _ hts => .pure hts))

/-- At its end marker, an enum has no more cases. -/
lemma enumStep_end (cases : Nat) :
    Course (LineAt j j (commandContent .endenumKw [] r)) pre (enumStep levels cases) (.done cases)
      (· = pre) (LineAt j j (commandContent .endenumKw [] r)) := by
  refine Course.poll (Course.peekKind (Passage.faces_command (by decide) _ _) ?_)
  refine Passage.Course.peekKeyword (by decide) rfl ?_
  rw [if_neg (by decide)]
  exact .pure rfl

/-- An enum with `n + 1` cases, each of which is in one block more than the one before. -/
def enumText (name : Text) (n : Nat) : Text :=
  commandLine 0 .enumKw (' ' :: name) ++ (casesText name 1 (n + 1) ++ commandLine 0 .endenumKw [])

/-- The text of an enum, up to the end of the text. -/
def enumContent (name : Text) (n : Nat) (r : Text) : Text :=
  commandContent .enumKw (' ' :: name)
    (casesText name 1 (n + 1) ++ (commandLine 0 .endenumKw [] ++ r))

lemma lineOf_enum (name : Text) (n : Nat) (r : Text) :
    LineOf 0 (enumContent name n r) (enumText name n ++ r) := by
  rw [enumText, List.append_assoc, List.append_assoc]
  exact lineOf_commandLine .enumKw _ _ (by decide)

/-- The first line of an enum, with the line behind it. -/
lemma enumHead_course (hname : isWord name = true) (hr : LineOf j' c r) (hj : j' ≤ j + 1) :
    Course (LineAt j j (commandContent .enumKw (' ' :: name) r)) [] enumHead () (fun _ => True)
      (LineAt j j' c) := by
  have htext : commandContent .enumKw (' ' :: name) r =
      "<<".toList ++ (Kind.enumKw.chars ++ ([' '] ++ (name ++ (">>".toList ++ '\n' :: r)))) := by
    simp [commandContent]
  rw [htext]
  unfold enumHead enumName
  refine (commandStart_course (by decide) rfl ?_ (unspaced_word hname _)).bind ?_
  · rintro _ ⟨⟩
    decide
  rintro _ ⟨t1, t2, -, -, rfl⟩
  refine (Term.name_course (offers_commandName hname) nameRecovery).step ?_
  rintro _ ⟨t3, -, -, rfl⟩
  exact (commandClose_course hr hj).mono fun _ _ => trivial

lemma enumCommand_course (hname : isWord name = true) (hw : 4 * (n + 1) ≤ IndentStack.maxWidth)
    (hr : LineOf 0 c r) :
    Course (LineAt 0 0 (enumContent name n r)) [] (enumCommand levels) ()
      (fun ts => ∃ t ∈ ts, n < t.height (decide <| · = .block)) (LineAt 0 0 c) := by
  have hclose : LineOf 0 (commandContent .endenumKw [] r) (commandLine 0 .endenumKw [] ++ r) :=
    lineOf_commandLine .endenumKw [] r (by decide)
  have hcases := lineOf_cases (j := 1) (by decide) name n (commandLine 0 .endenumKw [] ++ r)
  unfold enumCommand
  refine (show Course _ [] _ Kind.enumStmt _ (LineAt 0 0 c) from Course.nodeOf
    (V := fun us => ∃ u ∈ us, n < u.height (decide <| · = .block)) ?_).bind ?_
  · refine (enumHead_course hname hcases le_rfl).bind fun ts _ => ?_
    unfold enumTail enumCases
    simp only [bind_assoc]
    refine Course.loop_yield_bind (I := fun _ => Any) (fun _ _ hg => Rule.good _ hg)
      (advances_enumStep levels) (fun _ _ => trivial) (enumStep_block hname hw hclose 0) ?_
    rintro _ ⟨us, rfl, hdeep⟩
    refine (enumStep_end _).loop_done.bind ?_
    rintro _ rfl
    rw [if_neg (by omega)]
    refine (Course.pure rfl).bind ?_
    rintro _ rfl
    refine (Passage.closeWith_course (by decide) .enumStmt _ hr le_rfl).mono ?_
    rintro _ ⟨t1, t2, t3, t4, rfl⟩
    exact ⟨.node .block us, by simp, hdeep⟩
  · rintro _ ⟨us, ⟨u, hu, hdeep⟩, rfl⟩
    exact .pure ⟨.node .enumStmt us, by simp, hdeep.trans_le (Tree.height_le_node hu .enumStmt)⟩

/-- The lines of such an enum are read as the statement of a body. -/
lemma readsBody_enum (hname : isWord name = true) (hw : 4 * (n + 1) ≤ IndentStack.maxWidth) :
    ReadsBody (enumText name n) fun ts => ∃ t ∈ ts, n < t.height (decide <| · = .block) := by
  intro r
  have hnext := lineOf_bodyEnd r
  have hline := lineOf_enum name n ("===".toList ++ '\n' :: r)
  have hgo : ¬ EndsAt .empty 0 0 (enumContent name n ("===".toList ++ '\n' :: r)) := by
    rintro (h | ⟨keyword, -, h⟩)
    · rw [enumContent, kindOf_command (by decide)] at h
      simp [endsBlock] at h
    · simp [KindSet.contains_empty] at h
  have hdone : EndsAt .empty 0 0 ("===".toList ++ '\n' :: r) := .inl (.inr (.inl rfl))
  have hmoves : "===".toList ++ '\n' :: r ≠ enumContent name n ("===".toList ++ '\n' :: r) := by
    rintro ⟨⟩
  refine ⟨_, Midline.offers_line rfl hline (by omega), ?_⟩
  refine (statementList_cons (by omega) hgo (Passage.statement_command (by decide)
    (Passage.Course.peekKeyword (by decide) rfl (enumCommand_course hname hw hnext))) hmoves
      (statementList_end (by omega) hdone)).mono ?_
  rintro _ ⟨us, _, ⟨t, ht, hdeep⟩, rfl, rfl⟩
  exact ⟨t, by simpa using ht, hdeep⟩

end DialogueScript
