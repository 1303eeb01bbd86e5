import DialogueScript.Ast.Script
import DialogueScript.Proofs.Grammar.Items
import DialogueScript.Proofs.Grammar.LineCourse
import DialogueScript.Parse.Basic

/-!
Reading lines, headers, bodies and nodes that are in order. What a line says and what a body
contains is left open here.
-/

namespace DialogueScript

open Scanner

namespace Parser

open ParserState

variable {q q' q'' : Scanner → Prop} {pre : List Tree} {mode : Mode} {keep : Diagnostic → Bool}

lemma endOfLine_course (h : Offers mode .newline ['\n'] q q') :
    Course q pre (endOfLine mode) () (Leaf pre .newline ['\n']) q' keep := by
  refine Course.isAt h.toFaces ?_
  exact (Course.eat h (by decide)).bind fun _ hts => .pure hts

/-! ### Lines -/

/-- The text of a line that has one part. -/
lemma lineText_course {levels : Nat} {V : List Tree → Prop}
    (hstep : Course q [] (textStep levels mode false) (.yield true) V q' keep)
    (hnext : Faces .text .newline q') :
    Course q pre (lineText levels mode) true
      (fun ts => ∃ us, V us ∧ ts = pre ++ [.node .lineText us]) q' keep := by
  unfold lineText
  refine (Course.loop_yield (I := fun _ => Any) (fun _ _ hg => Rule.good _ hg)
    (advances_textStep levels mode) (fun _ _ => trivial) hstep fun ts hts => ?_).nodeIf .lineText
  exact Course.loop_done (Course.peekKind hnext (.pure hts))

/-- A line ends behind its text. -/
lemma lineRest_course {levels : Nat} (h : Offers .text .newline ['\n'] q q') :
    Course q pre (lineRest levels) () (Leaf pre .newline ['\n']) q' keep := by
  have hstep : Course q pre (whileStep (isAt .text .hash) hashtag) (.done ()) (· = pre) q keep :=
    Course.isAt h.toFaces (.pure rfl)
  have hhashtags : Course q pre hashtags () (· = pre) q keep := hstep.loop_done
  refine Course.isAt h.toFaces (hhashtags.bind ?_)
  rintro _ rfl
  exact endOfLine_course h

/-- The tree of a line with the given parts. -/
def LineTree (V : List Tree → Prop) (t : Tree) : Prop :=
  ∃ us, V us ∧ ∃ token : Token, token.kind = .newline ∧
    t = .node .lineStmt [.node .lineText us, .leaf token]

/-- A line that has nothing but its text. -/
lemma line_of_text {levels : Nat} {V : List Tree → Prop}
    (htext : Course q [] (lineText levels mode) true
      (fun ts => ∃ us, V us ∧ ts = [.node .lineText us]) q' keep)
    (hnext : Offers .text .newline ['\n'] q' q'') :
    Course q pre (line levels mode) () (fun ts => ∃ t, LineTree V t ∧ ts = pre ++ [t]) q''
      keep := by
  refine (Course.node (V := fun ts => ∃ us, V us ∧ ∃ token : Token, token.kind = .newline ∧
    ts = [.node .lineText us, .leaf token]) .lineStmt ?_).mono ?_
  · refine htext.bind ?_
    rintro _ ⟨us, hus, rfl⟩
    refine (lineRest_course hnext).mono ?_
    rintro _ ⟨token, h1, -, rfl⟩
    exact ⟨us, hus, token, h1, rfl⟩
  · rintro _ ⟨_, ⟨us, hus, token, h1, rfl⟩, rfl⟩
    exact ⟨_, ⟨us, hus, token, h1, rfl⟩, rfl⟩

lemma line_course {levels : Nat} {V : List Tree → Prop}
    (hstep : Course q [] (textStep levels mode false) (.yield true) V q' keep)
    (hnext : Offers .text .newline ['\n'] q' q'') :
    Course q pre (line levels mode) () (fun ts => ∃ t, LineTree V t ∧ ts = pre ++ [t]) q'' keep :=
  line_of_text (lineText_course hstep hnext.toFaces) hnext

/-! ### Headers -/

/-- A `title` line, up to where the next line starts. -/
def titleLine (title : Text) : Text := "title: ".toList ++ title

/-- A title that can stand in a header. -/
structure Title (t : Text) : Prop where
  trimmed : t.Trimmed
  commentless : t.Commentless
  oneLine : t.OneLine

variable {title c r : Text} {d j : Nat}

lemma Title.offers_title (h : Title title) (r : Text) :
    Offers .header .titleKw "title".toList (LineAt 0 0 (titleLine title ++ '\n' :: r))
        (Midline (.nested 0) (':' :: ' ' :: (title ++ '\n' :: r))) ∧
      Offers .header .colon [':'] (Midline (.nested 0) (':' :: ' ' :: (title ++ '\n' :: r)))
        (Midline (.nested 0) (title ++ '\n' :: r)) ∧
      Offers .headerValue .restOfLine title (Midline (.nested 0) (title ++ '\n' :: r))
        (Midline (.nested 0) ('\n' :: r)) := by
  refine ⟨LineAt.offers tokenAt_title (by decide), ?_, ?_⟩
  · exact Midline.offers
      (facing_colon (h.trimmed.unspaced _) (h.commentless.startsComment_append r)) (by decide)
  · have hvalue : Offers .headerValue .restOfLine title
        (Midline (.nested 0) (title ++ [] ++ '\n' :: r)) (Midline (.nested 0) ('\n' :: r)) :=
      Midline.offers (facing_title h.trimmed h.commentless h.oneLine) (by decide)
    rwa [List.append_nil] at hvalue

lemma titleHeader_course (h : Title title) (hend : Offers .header .newline ['\n']
      (Midline (.nested 0) ('\n' :: r)) q) :
    Course (LineAt 0 0 (titleLine title ++ '\n' :: r)) pre titleHeader ()
      (fun ts => ∃ us, tokenTextAmong? .restOfLine us = some title ∧
        ts = pre ++ [.node .titleHeader us]) q keep := by
  obtain ⟨h1, h2, h3⟩ := h.offers_title r
  refine Course.node .titleHeader ?_
  refine (Course.advance h1 (by decide)).bind ?_
  rintro _ ⟨t1, k1, -, rfl⟩
  refine (Course.expect h2 (by decide) _).bind ?_
  rintro _ ⟨t2, k2, -, rfl⟩
  refine (Course.expect h3 (by decide) _).bind ?_
  rintro _ ⟨t3, k3, w3, rfl⟩
  refine (endOfLine_course hend).mono ?_
  rintro _ ⟨t4, k4, -, rfl⟩
  simp [tokenTextAmong?, tokenAmong?, k1, k2, k3, w3]

/-- The headers of a node that has a title only. -/
lemma headers_course (h : Title title) (hend : Offers .header .newline ['\n']
      (Midline (.nested 0) ('\n' :: r)) q) (hbody : Faces .header .bodyStart q) :
    Course (LineAt 0 0 (titleLine title ++ '\n' :: r)) [] headers 1
      (fun ts => ∃ us, tokenTextAmong? .restOfLine us = some title ∧ ts = [.node .titleHeader us]) q
      keep := by
  have hface := (h.offers_title r).1.toFaces
  have hstep : Course (LineAt 0 0 (titleLine title ++ '\n' :: r)) [] (headerStep 0) (.yield 1)
      (fun ts => ∃ us, tokenTextAmong? .restOfLine us = some title ∧ ts = [.node .titleHeader us]) q
      keep := by
    refine Course.peekKind hface ?_
    refine (titleHeader_course h hend).bind ?_
    rintro _ ⟨us, hus, rfl⟩
    exact .pure ⟨us, hus, rfl⟩
  unfold headers
  refine Course.loop_yield (I := fun _ => AtHeader) (fun _ _ hg => Rule.good _ hg)
    advances_headerStep
    (fun s hs => ?_) hstep fun ts hts => Course.loop_done (Course.peekKind hbody (.pure hts))
  rw [AtHeader, hface.kind hs]
  decide

/-! ### Bodies -/

/-- The statements of a body that is closed by its end marker. -/
lemma bodyStatements_course {V : List Tree → Prop}
    (h : Course q pre (statementList (statement maxDepth) .empty) () V q' keep)
    (hend : Faces .statement .bodyEnd q') : Course q pre bodyStatements () V q' keep := by
  have hstep : Course q pre bodyStep (.done ()) V q' keep := by
    refine h.bind fun ts hts => Course.isCancelled (Course.isAt hend ?_)
    exact .pure hts
  unfold bodyStatements
  exact hstep.loop_done.bind fun _ hts => .pure hts

/-- A body between its markers, where `q'` is the place of the first statement. -/
lemma body_course {V : List Tree → Prop}
    (hopen : Offers .text .newline ['\n'] (Midline (.nested 0) ('\n' :: c)) q')
    (h : Course q' [] (statementList (statement maxDepth) .empty) () V
      (LineAt 0 0 ("===".toList ++ '\n' :: r)) keep)
    (hend : Offers .header .newline ['\n'] (Midline (.nested 0) ('\n' :: r)) q) :
    Course (LineAt 0 0 ("---".toList ++ '\n' :: c)) pre body true
      (fun ts => ∃ us, V us ∧ ∃ t1 t2 t3 t4 : Token, t3.kind = .bodyEnd ∧
        ts = pre ++ [.node .body ([.leaf t1, .leaf t2] ++ us ++ [.leaf t3, .leaf t4])]) q keep := by
  have hstart : Offers .header .bodyStart "---".toList (LineAt 0 0 ("---".toList ++ '\n' :: c))
      (Midline (.nested 0) ('\n' :: c)) := LineAt.offers tokenAt_bodyStart (by decide)
  have hclose : Offers .statement .bodyEnd "===".toList (LineAt 0 0 ("===".toList ++ '\n' :: r))
      (Midline (.nested 0) ('\n' :: r)) := LineAt.offers (tokenAt_bodyEnd rfl) (by decide)
  have hhead : Course (LineAt 0 0 ("---".toList ++ '\n' :: c)) [] bodyHead ()
      (fun ts => ∃ t1 t2 : Token, ts = [.leaf t1, .leaf t2]) q' keep := by
    refine (Course.advance hstart (by decide)).bind ?_
    rintro _ ⟨t1, -, -, rfl⟩
    refine (endOfLine_course hopen).mono ?_
    rintro _ ⟨t2, -, -, rfl⟩
    exact ⟨t1, t2, rfl⟩
  refine (Course.node (V := fun ts => ∃ us, V us ∧ ∃ t1 t2 t3 t4 : Token, t3.kind = .bodyEnd ∧
    ts = [.leaf t1, .leaf t2] ++ us ++ [.leaf t3, .leaf t4]) .body ?_).mono ?_
  · refine hhead.bind ?_
    rintro _ ⟨t1, t2, rfl⟩
    refine (bodyStatements_course h hclose.toFaces).step fun us hus => ?_
    refine (Course.eat hclose (by decide)).bind ?_
    rintro _ ⟨t3, k3, -, rfl⟩
    refine (endOfLine_course hend).bind ?_
    rintro _ ⟨t4, -, -, rfl⟩
    exact .pure ⟨us, hus, t1, t2, t3, t4, k3, by simp⟩
  · rintro _ ⟨_, ⟨us, hus, t1, t2, t3, t4, k3, rfl⟩, rfl⟩
    exact ⟨us, hus, t1, t2, t3, t4, k3, rfl⟩

/-! ### Nodes -/

/-- A node with a title and the lines of a body, up to its last line break. -/
def nodeText (title body : Text) : Text :=
  titleLine title ++ '\n' :: ("---".toList ++ '\n' :: (body ++ "===".toList))

/-- The lines of a body are read as statements with `V`, in front of any end of the body. -/
def ReadsBody (body : Text) (V : List Tree → Prop) (keep : Diagnostic → Bool := fun _ => true) :
    Prop :=
  ∀ r, ∃ q, Offers .text .newline ['\n']
      (Midline (.nested 0) ('\n' :: (body ++ ("===".toList ++ '\n' :: r)))) q ∧
    Course q [] (statementList (statement maxDepth) .empty) () V
      (LineAt 0 0 ("===".toList ++ '\n' :: r)) keep

/-- The tree of a node with a title and statements. -/
def NodeTree (title : Text) (V : List Tree → Prop) (t : Tree) : Prop :=
  ∃ us vs, V us ∧ tokenTextAmong? .restOfLine vs = some title ∧
    ∃ t1 t2 t3 t4 : Token, t3.kind = .bodyEnd ∧
      t = .node .dialogueNode [.node .titleHeader vs,
        .node .body ([.leaf t1, .leaf t2] ++ us ++ [.leaf t3, .leaf t4])]

lemma lineOf_bodyStart (r : Text) :
    LineOf 0 ("---".toList ++ '\n' :: r) ("---".toList ++ '\n' :: r) :=
  ⟨rfl, ⟨by simp, by rintro _ ⟨⟩; decide, rfl, rfl⟩, fun _ => rfl, by decide⟩

lemma lineOf_bodyEnd (r : Text) :
    LineOf 0 ("===".toList ++ '\n' :: r) ("===".toList ++ '\n' :: r) :=
  ⟨rfl, ⟨by simp, by rintro _ ⟨⟩; decide, rfl, rfl⟩, fun _ => rfl, by decide⟩

lemma lineOf_title (title r : Text) :
    LineOf 0 (titleLine title ++ '\n' :: r) (titleLine title ++ '\n' :: r) := by
  have htext : titleLine title = 't' :: ("itle: ".toList ++ title) := rfl
  rw [htext]
  exact ⟨rfl, ⟨by simp, by rintro _ ⟨⟩; decide, rfl, rfl⟩, fun _ => rfl, by decide⟩

lemma nodeText_append (title body r : Text) : nodeText title body ++ '\n' :: r =
    titleLine title ++ '\n' :: ("---".toList ++ '\n' :: (body ++ ("===".toList ++ '\n' :: r))) := by
  simp [nodeText]

lemma dialogueNode_course {body : Text} {V : List Tree → Prop} (h : Title title)
    (hbody : ReadsBody body V keep) :
    Course (LineAt 0 0 (nodeText title body ++ '\n' :: r)) pre dialogueNode ()
      (fun ts => ∃ t, NodeTree title V t ∧ ts = pre ++ [t]) (Fresh 0 r) keep := by
  obtain ⟨q, hopen, hstatements⟩ := hbody r
  have htitle : Offers .header _ _ _ _ := Midline.offers_line (d := 0) rfl
    (lineOf_bodyStart (body ++ ("===".toList ++ '\n' :: r))) (by omega)
  have hstart : Offers .header .bodyStart "---".toList
      (LineAt 0 0 ("---".toList ++ '\n' :: (body ++ ("===".toList ++ '\n' :: r)))) _ :=
    LineAt.offers (tokenAt_bodyStart (r := body ++ ("===".toList ++ '\n' :: r))) (by decide)
  have hheaders : Course (LineAt 0 0 (titleLine title ++ '\n' ::
      ("---".toList ++ '\n' :: (body ++ ("===".toList ++ '\n' :: r))))) [] nodeHeaders 1
      (fun ts => ∃ us, tokenTextAmong? .restOfLine us = some title ∧ ts = [.node .titleHeader us])
      (LineAt 0 0 ("---".toList ++ '\n' :: (body ++ ("===".toList ++ '\n' :: r)))) keep := by
    refine Course.peekRange (h.offers_title _).1.toFaces fun first => ?_
    exact (headers_course h htitle hstart.toFaces).bind fun ts hts => .pure hts
  have hnode : Course (LineAt 0 0 (titleLine title ++ '\n' ::
      ("---".toList ++ '\n' :: (body ++ ("===".toList ++ '\n' :: r))))) []
      (nodeHeaders >>= fun _ => nodeTail) .dialogueNode
      (fun ts => NodeTree title V (.node .dialogueNode ts)) (Fresh 0 r) keep := by
    refine hheaders.bind ?_
    rintro _ ⟨vs, hvs, rfl⟩
    refine Course.isAt hstart.toFaces ?_
    refine (body_course hopen hstatements (Midline.offers_newline rfl)).bind ?_
    rintro _ ⟨us, hus, t1, t2, t3, t4, k3, rfl⟩
    exact .pure ⟨us, vs, hus, hvs, t1, t2, t3, t4, k3, rfl⟩
  rw [nodeText_append]
  refine hnode.nodeOf.bind ?_
  rintro _ ⟨us, hus, rfl⟩
  exact .pure ⟨_, hus, rfl⟩

/-! ### Scripts -/

section
variable {α : Type} {titleOf bodyOf : α → Text} {V : α → List Tree → Prop}

/-- Nodes in a row, each up to its line break. -/
def nodesText (titleOf bodyOf : α → Text) (nodes : List α) : Text :=
  nodes.flatMap fun n => nodeText (titleOf n) (bodyOf n) ++ ['\n']

lemma items_course (pre : List Tree) (htitle : ∀ n, Title (titleOf n))
    (hbody : ∀ n, ReadsBody (bodyOf n) (V n) keep) (nodes : List α) (count : Nat) :
    Course (Fresh 0 (nodesText titleOf bodyOf nodes)) pre (loop itemStep count)
      (count + nodes.length)
      (fun ts => ∃ us, List.Forall₂ (fun n => NodeTree (titleOf n) (V n)) nodes us ∧ ts = pre ++ us)
      (Fresh 0 []) keep := by
  induction nodes generalizing pre count with
  | nil =>
    refine Course.loop_done
      (Course.checkpoint (Course.poll (Course.peekKind Fresh.offers_eof.toFaces ?_)))
    exact .pure ⟨[], .nil, by simp⟩
  | cons n nodes ih =>
    have htext : nodesText titleOf bodyOf (n :: nodes) =
        nodeText (titleOf n) (bodyOf n) ++ '\n' :: nodesText titleOf bodyOf nodes := by
      simp [nodesText]
    have hline := lineOf_title (titleOf n)
      ("---".toList ++ '\n' ::
        (bodyOf n ++ ("===".toList ++ '\n' :: nodesText titleOf bodyOf nodes)))
    have hfaces := ((htitle n).offers_title
      ("---".toList ++ '\n' ::
        (bodyOf n ++ ("===".toList ++ '\n' :: nodesText titleOf bodyOf nodes)))).1.toFaces
    rw [← nodeText_append] at hline hfaces
    have hstep : Course (LineAt 0 0 (nodeText (titleOf n) (bodyOf n) ++ '\n' ::
        nodesText titleOf bodyOf nodes)) pre (itemStep count)
        (.yield (count + 1)) (fun ts => ∃ t, NodeTree (titleOf n) (V n) t ∧ ts = pre ++ [t])
        (Fresh 0 (nodesText titleOf bodyOf nodes)) keep := by
      refine Course.checkpoint (Course.poll (Course.peekKind hfaces ?_))
      refine (dialogueNode_course (htitle n) (hbody n)).bind fun ts hts => ?_
      exact .pure hts
    rw [htext]
    refine Course.enter ?_ fun _ hs => LineAt.of_line hline (by omega) hs
    refine Course.loop_yield (I := fun _ s => s.cancelled = true ∨ AtHeader s)
      (fun _ _ hg => good_itemStep hg _) advances_itemStep (fun s hs => .inr ?_) hstep ?_
    · rw [AtHeader, hfaces.kind hs]
      decide
    · rintro _ ⟨t, ht, rfl⟩
      have hcount : count + (n :: nodes).length = count + 1 + nodes.length := by
        simp only [List.length_cons]
        omega
      rw [hcount]
      refine (ih _ (count + 1)).mono ?_
      rintro _ ⟨us, hus, rfl⟩
      exact ⟨t :: us, .cons ht hus, by simp⟩

/-- A script of at least one node is read to its end, and nothing is reported. -/
lemma script_course (htitle : ∀ n, Title (titleOf n)) (hbody : ∀ n, ReadsBody (bodyOf n) (V n) keep)
    {nodes : List α} (hne : nodes ≠ []) :
    Course (Fresh 0 (nodesText titleOf bodyOf nodes)) [] script ()
      (fun ts => ∃ us token, List.Forall₂ (fun n => NodeTree (titleOf n) (V n)) nodes us ∧
        ts = us ++ [.leaf token]) (fun _ => True) keep := by
  have hitems := items_course [] htitle hbody nodes 0
  refine Course.bind (p := items) hitems ?_
  rintro us ⟨us', hus, hus'⟩
  obtain rfl : us = us' := by simpa using hus'
  have hcount : 0 + nodes.length ≠ 0 := by simpa using hne
  refine Course.isCancelled ?_
  simp only [Bool.false_eq_true, if_false, hcount]
  refine (Course.bump Fresh.offers_eof).mono ?_
  rintro _ ⟨token, -, -, rfl⟩
  exact ⟨us, token, hus, rfl⟩

end

end Parser

namespace Parse

open DialogueScript.Parser

variable {α : Type} {titleOf bodyOf : α → Text} {V : α → List Tree → Prop}
  {keep : Diagnostic → Bool}

lemma ofText_nodes (config : Config) (htitle : ∀ n, Title (titleOf n))
    (hbody : ∀ n, ReadsBody (bodyOf n) (V n) keep) {nodes : List α} (hne : nodes ≠ []) :
    (finalState config (nodesText titleOf bodyOf nodes) none).diagnostics.filter keep = [] ∧
      ∃ ts token, List.Forall₂ (fun n => NodeTree (titleOf n) (V n)) nodes ts ∧
        (ofText config (nodesText titleOf bodyOf nodes)).tree =
          .node .sourceFile (ts ++ [.leaf token]) := by
  have hat : (begun config (nodesText titleOf bodyOf nodes) none).At
      (Fresh 0 (nodesText titleOf bodyOf nodes)) :=
    ⟨⟨good_atLine config _ 0 IndentStack.rising_empty, rfl⟩, ⟨rfl, rfl⟩, ⟨rfl, rfl, rfl, rfl⟩⟩
  obtain ⟨-, -, h1, -, _, ⟨us, token, hus, rfl⟩, h2⟩ :=
    @script_course _ _ _ _ _ htitle hbody _ hne _ [] hat rfl
  have hforest : (finalState config (nodesText titleOf bodyOf nodes) none).forest.inner =
      (us ++ [Tree.leaf token]).reverse ++ [] := h2
  refine ⟨h1, us, token, hus, ?_⟩
  rw [ofText, withCancel, ofState]
  simp [Forest.trees, hforest]

end Parse

end DialogueScript
