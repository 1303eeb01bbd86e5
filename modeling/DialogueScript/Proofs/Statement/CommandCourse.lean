import DialogueScript.Proofs.Grammar.StatementCourse
import DialogueScript.Proofs.Parse.ReadBack
import DialogueScript.Proofs.Statement.Passage

/-!
Reading the lines of commands: their first tokens, the variables and names in them, and their ends.
-/

namespace DialogueScript

open DialogueScript.Parser DialogueScript.Scanner

variable {j j' : Nat} {k : Kind} {b t rest r c : Text} {pre : List Tree}

/-! ### Lines -/

lemma width_le (hj : j ≤ maxDepth) : 4 * j ≤ IndentStack.maxWidth := by
  simp only [maxDepth] at hj
  simp only [IndentStack.maxWidth]
  omega

lemma lineOf_lineAt (hc : Text.Content (t ++ '\n' :: r))
    (hclose : closesBlocks (t ++ '\n' :: r) = false) (hj : j ≤ maxDepth) :
    LineOf j (t ++ '\n' :: r) (lineAt j t ++ r) :=
  ⟨by simp [lineAt], hc, by simp [hclose], width_le hj⟩

/-- What the line of a command starts with, up to the end of the text. -/
def commandContent (keyword : Kind) (rest r : Text) : Text :=
  "<<".toList ++ (keyword.chars ++ (rest ++ (">>".toList ++ '\n' :: r)))

lemma lineOf_commandLine (k : Kind) (rest r : Text) (hj : 4 * j ≤ IndentStack.maxWidth) :
    LineOf j (commandContent k rest r) (commandLine j k rest ++ r) := by
  have htext : commandLine j k rest ++ r = pad j ++ commandContent k rest r := by
    simp [commandLine, lineAt, commandContent]
  refine ⟨htext, ⟨by simp [commandContent], ?_, rfl, rfl⟩, fun h => ?_, hj⟩
  · rintro _ ⟨⟩
    decide
  · have hclose : closesBlocks (commandContent k rest r) = false := rfl
    simp [hclose] at h

lemma lineOf_command (k : Kind) (rest r : Text) (hj : j ≤ maxDepth) :
    LineOf j (commandContent k rest r) (commandLine j k rest ++ r) :=
  lineOf_commandLine k rest r (width_le hj)

lemma length_commandContent (k : Kind) (rest r : Text) :
    r.length < (commandContent k rest r).length := by
  simp only [commandContent, List.length_append, List.length_cons]
  omega

/-! ### Keywords -/

/-- The keywords that commands start with. -/
structure IsCommand (k : Kind) : Prop where
  mem : k ∈ commandKeywords
  value : k ≠ .toKw ∧ k ≠ .asKw

instance : DecidablePred IsCommand := fun _ =>
  decidable_of_iff (_ ∧ _) ⟨fun ⟨h, h'⟩ => ⟨h, h'⟩, fun ⟨h, h'⟩ => ⟨h, h'⟩⟩

lemma unspaced_keyword (hk : IsCommand k) (t : Text) : Text.Unspaced (k.chars ++ t) := by
  obtain ⟨x, xs, hch, hx, -⟩ := Lexeme.head_word (command_spelling hk.mem).1
  rw [hch]
  rintro _ ⟨⟩
  exact hx

/-- A keyword ends in front of a blank and in front of the end of the command. -/
lemma endsWord_rest (rest : Text) (h : rest.head?.all (· = ' ') = true) (t : Text) :
    Text.EndsWord (rest ++ (">>".toList ++ t)) := by
  rcases rest with _ | ⟨x, xs⟩
  · rintro _ ⟨⟩
    decide
  · obtain rfl : x = ' ' := by simpa using h
    rintro _ ⟨⟩
    decide

lemma tokenAt_command (hk : IsCommand k) (rest r : Text) :
    TokenAt .statement .commandStart "<<".toList []
    (k.chars ++ (rest ++ (">>".toList ++ '\n' :: r))) :=
  tokenAt_commandStart rfl (unspaced_keyword hk _)

lemma kindOf_command (hk : IsCommand k) (rest r : Text) :
    kindOf j j (commandContent k rest r) = .commandStart := by
  have hnext := (tokenAt_command hk rest r).next
  rw [List.append_nil] at hnext
  rw [kindOf_self, commandContent, hnext]

lemma keywordOf_command (hk : IsCommand k) (hrest : rest.head?.all (· = ' ') = true) (r : Text) :
    keywordOf j j (commandContent k rest r) = some k := by
  have hnext := (tokenAt_command hk rest r).next
  rw [List.append_nil] at hnext
  rw [keywordOf, if_pos (kindOf_command hk rest r), commandContent, hnext]
  exact commandKeywordAt?_append hk.mem hk.value (endsWord_rest rest hrest _)

/-! ### Both ends of a command -/

/-- Two leaves of the given kinds behind some trees. -/
def Leaves (pre : List Tree) (k k' : Kind) (ts : List Tree) : Prop :=
  ∃ t t' : Token, t.kind = k ∧ t'.kind = k' ∧ ts = pre ++ [.leaf t, .leaf t']

/-- The keyword of a command with the blanks behind it. -/
lemma commandStart_course (hk : IsCommand k) (hb : b.all isBlank = true)
    (he : Text.EndsWord (b ++ t)) (ht : Text.Unspaced t) :
    Course (LineAt j j ("<<".toList ++ (k.chars ++ (b ++ t)))) pre commandStart ()
      (Leaves pre .commandStart k) (Midline (.nested j) t) := by
  have hstart : Offers .statement .commandStart "<<".toList
      (LineAt j j ("<<".toList ++ [] ++ (k.chars ++ (b ++ t))))
        (Midline (.nested j) (k.chars ++ (b ++ t))) :=
    LineAt.offers (tokenAt_commandStart rfl (unspaced_keyword hk _)) (by decide)
  rw [List.append_nil] at hstart
  have hkeyword : Offers .command k k.chars (Midline (.nested j) (k.chars ++ b ++ t))
      (Midline (.nested j) t) :=
    Midline.offers (facing_commandKeyword hk.mem hb he ht) (command_spelling hk.mem).2.2.2.1
  rw [List.append_assoc] at hkeyword
  refine (Course.advance hstart (by decide)).bind ?_
  rintro _ ⟨t1, k1, -, rfl⟩
  refine (Course.advance hkeyword (command_spelling hk.mem).2.2.2.2.1).mono ?_
  rintro _ ⟨t2, k2, -, rfl⟩
  exact ⟨t1, t2, k1, k2, by simp⟩

lemma commandEnd_course {mode : Mode} (hm : mode = .expr ∨ mode = .name ∨ mode = .command)
    {stack : IndentStack} :
    Course (Midline stack (">>".toList ++ '\n' :: r)) pre (commandEnd mode) ()
      (Leaf pre .commandEnd ">>".toList) (Midline stack ('\n' :: r)) := by
  have hend : Offers mode .commandEnd ">>".toList (Midline stack (">>".toList ++ [] ++ '\n' :: r))
      (Midline stack ('\n' :: r)) := Midline.offers (facing_commandEnd hm) (by decide)
  rw [List.append_nil] at hend
  exact (Course.eat hend (by decide)).bind fun _ hts => .pure hts

/-- The end of a command in front of a line that can follow. -/
lemma commandClose_course (hr : LineOf j' c r) (hj : j' ≤ j + 1) :
    Course (Midline (.nested j) (">>".toList ++ '\n' :: r)) pre commandClose ()
      (Leaves pre .commandEnd .newline) (LineAt j j' c) := by
  refine (commandEnd_course (.inr (.inr rfl))).bind ?_
  rintro _ ⟨t1, k1, -, rfl⟩
  refine (endOfLine_course (Midline.offers_line rfl hr hj)).mono ?_
  rintro _ ⟨t2, k2, -, rfl⟩
  exact ⟨t1, t2, k1, k2, by simp⟩

/-! ### Variables, numbers and names -/

section
variable {stack : IndentStack} {name digits : Text} {levels : Nat}

lemma faces_commandEnd (stack : IndentStack) (r : Text) :
    Faces .expr .commandEnd (Midline stack (">>".toList ++ '\n' :: r)) := by
  have hface : Faces .expr .commandEnd (Midline stack (">>".toList ++ [] ++ '\n' :: r)) :=
    Midline.faces (facing_commandEnd (.inl rfl))
  rwa [List.append_nil] at hface

lemma unspaced_word (h : isWord name = true) (t : Text) : Text.Unspaced (name ++ t) := by
  obtain ⟨x, xs, rfl, hx, -⟩ := Lexeme.head_word h
  rintro _ ⟨⟩
  exact hx

lemma endsNumber_commandEnd (t : Text) : Text.EndsNumber (">>".toList ++ t) := by
  refine ⟨?_, by simp⟩
  rintro _ ⟨⟩
  decide

lemma unspaced_commandEnd (t : Text) : Text.Unspaced (">>".toList ++ t) := by
  rintro _ ⟨⟩
  decide

/-- The pieces of a variable, with the blanks behind it. -/
def variablePieces (name b : Text) : List Piece := [⟨Kind.dollar.chars, []⟩, ⟨name, b⟩]

lemma concat_variablePieces (name b t : Text) :
    Piece.concat (variablePieces name b) ++ t = '$' :: (name ++ (b ++ t)) := by
  have hdollar : Kind.dollar.chars = ['$'] := rfl
  simp [variablePieces, hdollar]

lemma spaced_variable (h : isWord name = true) (hb : b.all isBlank = true)
    (he : Text.EndsWord (b ++ t)) (ht : Text.Unspaced t) :
    Piece.Spaced (variablePieces name b) t := by
  refine ⟨rfl, ?_, Piece.parted_of_symbol (.inl rfl) _, hb, ht, Piece.parted_of_word h he, trivial⟩
  rw [Piece.concat_cons, List.append_assoc]
  exact unspaced_word h _

/-- An expression at the end of a command. -/
lemma commandExpr_course {e : Term} {ps : List Piece} (hwell : e.wellFormed = true)
    (hd : e.depth < levels) (htokens : ps.map (·.token) = e.tokens)
    (hspaced : Piece.Spaced ps (">>".toList ++ '\n' :: r)) :
    Course (Midline stack (Piece.concat ps ++ (">>".toList ++ '\n' :: r))) [] (expr levels)
      (some e.kind) e.Means (Midline stack (">>".toList ++ '\n' :: r)) :=
  Term.expr_course hwell hd ⟨htokens, hspaced⟩ (faces_commandEnd stack r) (by decide)

/-- A variable as the condition of a command. -/
lemma condition_course (h : isWord name = true) (hl : 0 < levels) :
    Course (Midline stack ('$' :: (name ++ (">>".toList ++ '\n' :: r)))) [] (expr levels)
      (some (Term.var name).kind) (Term.var name).Means
        (Midline stack (">>".toList ++ '\n' :: r)) := by
  have hspaced := spaced_variable (b := []) h rfl (endsNumber_commandEnd ('\n' :: r)).1
    (unspaced_commandEnd _)
  have htext := concat_variablePieces name [] (">>".toList ++ '\n' :: r)
  rw [List.nil_append] at htext
  rw [← htext]
  exact commandExpr_course h hl rfl hspaced

/-- A number as the value of a command. -/
lemma number_course (h : isDigits digits = true) (hl : 0 < levels) :
    Course (Midline stack (digits ++ (">>".toList ++ '\n' :: r))) [] (expr levels)
      (some (Term.number digits none).kind) (Term.number digits none).Means
      (Midline stack (">>".toList ++ '\n' :: r)) := by
  have hwell : (Term.number digits none).wellFormed = true := by simpa [Term.wellFormed] using h
  have hspaced : Piece.Spaced [⟨digits, []⟩] (">>".toList ++ '\n' :: r) :=
    ⟨rfl, unspaced_commandEnd _, Piece.parted_of_digits h (endsNumber_commandEnd _), trivial⟩
  have htext : digits = Piece.concat [⟨digits, []⟩] := by simp
  conv in digits ++ _ => rw [htext]
  exact commandExpr_course hwell hl rfl hspaced

/-- The tree of a variable. -/
def VariableTree (name : Text) (ts : List Tree) : Prop :=
  ∃ t t' : Token, t.kind = .dollar ∧ t'.kind = .ident ∧ t'.text = name ∧
    ts = [.node .variableExpr [.leaf t, .leaf t']]

/-- The variable that a command is about. -/
lemma commandVariable_course (h : isWord name = true) (hb : b.all isBlank = true)
    (he : Text.EndsWord (b ++ t)) (ht : Text.Unspaced t) :
    Course (Midline stack ('$' :: (name ++ (b ++ t)))) [] commandVariable () (VariableTree name)
      (Midline stack t) := by
  have hspaced := spaced_variable h hb he ht
  have hdollar := Term.offers_single stack (k := .dollar) (by decide) rfl hspaced
  have hname := Term.offers_name stack h rfl hspaced.2.2.2
  rw [← concat_variablePieces]
  exact Course.isAt hdollar.toFaces (Term.variableExpr_course hdollar hname)

/-- A name at the end of a command. -/
lemma offers_commandName (h : isWord name = true) : Offers .name .ident name
    (Midline stack (name ++ (">>".toList ++ '\n' :: r)))
      (Midline stack (">>".toList ++ '\n' :: r)) := by
  have hspaced : Piece.Spaced [⟨name, []⟩] (">>".toList ++ '\n' :: r) :=
    ⟨rfl, unspaced_commandEnd _, Piece.parted_of_word h (endsNumber_commandEnd _).1, trivial⟩
  have hname := Term.offers_name stack h rfl hspaced
  simpa using hname

end

/-! ### Commands on one line -/

section
variable {stack : IndentStack} {name digits : Text} {levels : Nat} (hr : LineOf j' c r)
  (hj : j' ≤ j + 1)
include hr hj

lemma setCommand_course (hname : isWord name = true) (hdigits : isDigits digits = true)
    (hl : 0 < levels) :
    Course (LineAt j j (commandContent .setKw (spacedVariable name ++ (" = ".toList ++ digits)) r))
      pre (setCommand levels) ()
      (fun ts => ∃ t, Stmt.ofTree? t = some (Passage.set name digits).value ∧ ts = pre ++ [t])
      (LineAt j j' c) := by
  have htext : commandContent .setKw (spacedVariable name ++ (" = ".toList ++ digits)) r =
      "<<".toList ++ (Kind.setKw.chars ++ ([' '] ++ ('$' :: (name ++ ([' '] ++
        (['='] ++ [' '] ++ (digits ++ (">>".toList ++ '\n' :: r)))))))) := by
    simp [commandContent, spacedVariable]
  have hspace : ∀ t : Text, Text.EndsWord ([' '] ++ t) := by
    rintro t _ ⟨⟩
    decide
  have hdigit : Text.Unspaced (digits ++ (">>".toList ++ '\n' :: r)) := by
    have hsolid : (Lexeme.numberText digits none).Solid := Term.solid_numberText hdigits
    obtain ⟨x, xs, hx, hblank⟩ := hsolid
    rw [show digits = x :: xs from hx]
    rintro _ ⟨⟩
    exact hblank
  have heq : Offers .command .eq ['='] (Midline (.nested j) (['='] ++ [' '] ++
      (digits ++ (">>".toList ++ '\n' :: r))))
        (Midline (.nested j) (digits ++ (">>".toList ++ '\n' :: r))) :=
    Midline.offers (facing_eq rfl (by simp) hdigit) (by decide)
  rw [htext]
  unfold setCommand setValue
  refine (Course.node .setStmt (V := fun us => Stmt.ofTree? (.node .setStmt us) =
    some (Passage.set name digits).value) ?_).mono ?_
  · refine (commandStart_course (by decide) rfl (hspace _) (by rintro _ ⟨⟩; decide)).bind ?_
    rintro _ ⟨t1, t2, k1, k2, rfl⟩
    refine (commandVariable_course hname rfl (hspace _) (by rintro _ ⟨⟩; decide)).step ?_
    rintro _ ⟨t3, t4, k3, k4, w4, rfl⟩
    refine Course.peekKind heq.toFaces ?_
    refine (Course.advance heq (by decide)).bind ?_
    rintro _ ⟨t5, k5, -, rfl⟩
    refine (number_course hdigits hl).step ?_
    rintro _ ⟨u, rfl, hu⟩
    refine (commandClose_course hr hj).mono ?_
    rintro _ ⟨t6, t7, k6, k7, rfl⟩
    have hvar : Expr.ofTree? (.node .variableExpr [.leaf t3, .leaf t4]) =
        some (.var (some name)) := by
      rw [Expr.ofTree?]
      simp [tokenTextAmong?, tokenAmong?, k3, k4, w4]
    have hop : AssignOp.ofKind? t1.kind = none ∧ AssignOp.ofKind? t2.kind = none ∧
        AssignOp.ofKind? t5.kind = some .assign := by
      rw [k1, k2, k5]
      decide
    rw [Stmt.ofTree?]
    simp [Passage.value, variableAmong?, nodeAmong?, tokenTextAmong?, tokenAmong?, k3, k4, w4,
      tokensAmong, hop, Expr.ofAll_cons, hvar, hu, Term.value]
  · rintro _ ⟨us, hus, rfl⟩
    exact ⟨_, hus, rfl⟩

lemma jumpCommand_course (hname : isWord name = true) :
    Course (LineAt j j (commandContent .jumpKw (' ' :: name) r)) pre (jumpCommand levels) ()
      (fun ts => ∃ t, Stmt.ofTree? t = some (Passage.jump name).value ∧ ts = pre ++ [t])
      (LineAt j j' c) := by
  have htext : commandContent .jumpKw (' ' :: name) r =
      "<<".toList ++ (Kind.jumpKw.chars ++ ([' '] ++ (name ++ (">>".toList ++ '\n' :: r)))) := by
    simp [commandContent]
  rw [htext]
  unfold jumpCommand
  refine (Course.node .jumpStmt (V := fun us => Stmt.ofTree? (.node .jumpStmt us) =
    some (Passage.jump name).value) ?_).mono ?_
  · refine (commandStart_course (by decide) rfl ?_ (unspaced_word hname _)).bind ?_
    · rintro _ ⟨⟩
      decide
    rintro _ ⟨t1, t2, k1, k2, rfl⟩
    have hoffers : Offers .name .ident name
        (Midline (.nested j) (name ++ (">>".toList ++ '\n' :: r)))
        (Midline (.nested j) (">>".toList ++ '\n' :: r)) := offers_commandName hname
    have htarget : Course _ [] (jumpTarget levels) () _ _ :=
      Course.isAt hoffers.toFaces (Term.name_course hoffers nameRecovery)
    refine htarget.step ?_
    rintro _ ⟨t3, k3, w3, rfl⟩
    refine (commandClose_course hr hj).mono ?_
    rintro _ ⟨t4, t5, k4, k5, rfl⟩
    rw [Stmt.ofTree?]
    simp [Passage.value, hasToken, tokenAmong?, jumpTarget?, nameAmong?, nodeAmong?, nodesAmong,
      tokenTextAmong?, k1, k2, k3, k4, k5, w3]
  · rintro _ ⟨us, hus, rfl⟩
    exact ⟨_, hus, rfl⟩

lemma returnCommand_course :
    Course (LineAt j j (commandContent .returnKw [] r)) pre returnCommand ()
      (fun ts => ∃ t, Stmt.ofTree? t = some Passage.ret.value ∧ ts = pre ++ [t])
        (LineAt j j' c) := by
  unfold returnCommand
  refine (Course.node .returnStmt (V := fun _ => True) ?_).mono ?_
  · refine (commandStart_course (b := []) (by decide) rfl ?_ ?_).bind ?_
    · exact endsWord_rest [] rfl _
    · exact unspaced_commandEnd _
    rintro _ ⟨t1, t2, -, -, rfl⟩
    exact (commandClose_course hr hj).mono fun _ _ => trivial
  · rintro _ ⟨us, -, rfl⟩
    exact ⟨_, by rw [Stmt.ofTree?, Passage.value], rfl⟩

end

end DialogueScript
