import DialogueScript.Proofs.Scanner.Errors
import DialogueScript.Proofs.Scanner.Keywords
import DialogueScript.Proofs.Tree.Adjoined

/-!
The blanks behind a token of dialogue or command text. They are trivia in front of everything that
can end such a text, whatever the mode of the next token is. Where that mode takes for text what
stands next, the blanks are lost from the text.
-/

namespace DialogueScript

namespace Scanner

/-- Something that ends some text stands next: the end of the line or one of the marks. -/
lemma endsText_cases {t : Text} (h : endsText t = true) :
    Text.atLineEnd t = true ∨ Text.startsWith t ">>" = true ∨
      (Kind.marks .commandStmt).any (Text.startsWith t ·) = true := by
  simp only [endsText, List.any_cons, List.any_nil, Bool.or_eq_true, Kind.marks] at h ⊢
  tauto

end Scanner

namespace Lexeme

lemma next_of_atLineEnd (mode : Mode) {t : Text} (h : Text.atLineEnd t = true) :
    (next mode t).kind = .eof ∨ (next mode t).kind = .newline := by
  rcases t with _ | ⟨c, t⟩
  · exact .inl rfl
  · obtain ⟨n, hn⟩ :=
      Option.isSome_iff_exists.1 (show (Text.lineBreak? (c :: t)).isSome = true from h)
    exact .inr (by rw [next_of_lineBreak? mode hn])

/-- Dialogue text goes on at no mark but `>>`. -/
lemma text_at_mark {t : Text} (hends : Scanner.endsText t = true)
    (hk : (next .text t).kind = .text ∨ (next .text t).kind = .textEscape ∨
      (next .text t).kind = .leftBrace) :
    (next .text t).kind = .text ∧ Text.startsWith t ">>" = true := by
  rcases Scanner.endsText_cases hends with hend | hstart | hmark
  · rcases next_of_atLineEnd .text hend with h | h <;> simp [h] at hk
  · obtain ⟨u, rfl⟩ := Text.startsWith_iff.1 hstart
    exact ⟨rfl, hstart⟩
  · simp only [Kind.marks, List.any_cons, List.any_nil, Bool.or_eq_true, Text.startsWith_iff]
      at hmark
    rcases hmark with ⟨u, rfl⟩ | ⟨u, rfl⟩ | ⟨u, rfl⟩ | hnone
    · -- a comment is no text
      have hcomment : (next .text ("//".toList ++ u)).kind = .errorToken := rfl
      exact absurd hk (by rw [hcomment]; decide)
    · have hhash : (next .text ("#".toList ++ u)).kind = .hash := rfl
      exact absurd hk (by rw [hhash]; decide)
    · have hcommand : (next .text ("<<".toList ++ u)).kind = .commandStart := rfl
      exact absurd hk (by rw [hcommand]; decide)
    · simp at hnone

/-- What ends in something else than a blank is not cut off. -/
lemma length_le_trimmedLength {m : Text} (hm : m.getLast?.all (!isBlank ·) = true) (u : Text) :
    m.length ≤ trimmedLength (m ++ u) := by
  have hcut : m.reverse.dropWhile isBlank = m.reverse := by
    rcases List.eq_nil_or_concat m with rfl | ⟨w, c, rfl⟩
    · rfl
    · have hc : isBlank c = false := by simpa using hm
      simp [hc]
  have htrim : m.length ≤ (Text.trimEnd (m ++ u)).length := by
    rw [Text.trimEnd, List.length_reverse, List.reverse_append, List.dropWhile_append]
    split <;> simp [hcut]
  unfold trimmedLength
  dsimp only
  split
  · simp
  · exact htrim

lemma length_le_commandRunLength {m : Text}
    (hm : ∀ c ∈ m, c ≠ '\x7b' ∧ c ≠ '>' ∧ isLineBreak c = false) (u : Text) :
    m.length ≤ commandRunLength (m ++ u) := by
  induction m with
  | nil => exact Nat.zero_le _
  | cons c m ih =>
    obtain ⟨hbrace, hclose, hbreak⟩ := hm c List.mem_cons_self
    have hnext : Text.startsWith (c :: (m ++ u)) ">>" = false := by
      simp [Text.startsWith, List.isPrefixOf, Ne.symm hclose]
    have := ih fun d hd => hm d (List.mem_cons_of_mem c hd)
    rw [List.cons_append, commandRunLength, if_neg (by simp [hbrace, hbreak, hnext]),
      List.length_cons]
    omega

lemma commandText_of_none {t : Text} (h : spelledAt? [.commandEnd, .leftBrace] t = none) :
    ∃ n, commandText t = ⟨.commandText, n, none⟩ ∧
      (n = commandRunLength t ∨ n = trimmedLength (t.take (commandRunLength t))) := by
  unfold commandText
  rw [h, Option.getD_none]
  dsimp only
  split
  · exact ⟨_, rfl, .inr rfl⟩
  · exact ⟨_, rfl, .inl rfl⟩

/-- Command text goes on at the other marks, and a part that starts at one holds it. -/
lemma commandText_at_mark {t : Text} (hends : Scanner.endsText t = true)
    (hk : (next .commandText t).kind = .commandText ∨ (next .commandText t).kind = .leftBrace) :
    (next .commandText t).kind = .commandText ∧
      (Kind.marks .commandStmt).any (Text.startsWith (t.take (next .commandText t).length) ·) =
        true := by
  rcases Scanner.endsText_cases hends with hend | hstart | hmark
  · rcases next_of_atLineEnd .commandText hend with h | h <;> simp [h] at hk
  · obtain ⟨u, rfl⟩ := Text.startsWith_iff.1 hstart
    have hclose : (next .commandText (">>".toList ++ u)).kind = .commandEnd := rfl
    exact absurd hk (by rw [hclose]; decide)
  · obtain ⟨m, hm, hstart⟩ := List.any_eq_true.1 hmark
    obtain ⟨u, rfl⟩ := Text.startsWith_iff.1 hstart
    have hmem : m = "//" ∨ m = "#" ∨ m = "<<" := by simpa [Kind.marks] using hm
    have hchars : ∀ c ∈ m.toList, c ≠ '\x7b' ∧ c ≠ '>' ∧ isLineBreak c = false := by
      rcases hmem with rfl | rfl | rfl <;> simp [isLineBreak]
    have hlast : m.toList.getLast?.all (!isBlank ·) = true := by
      rcases hmem with rfl | rfl | rfl <;> decide
    have hnext : next .commandText (m.toList ++ u) = commandText (m.toList ++ u) ∧
        spelledAt? [.commandEnd, .leftBrace] (m.toList ++ u) = none := by
      rcases hmem with rfl | rfl | rfl <;> exact ⟨rfl, rfl⟩
    have hrun := length_le_commandRunLength hchars u
    obtain ⟨n, hn, hlength⟩ := commandText_of_none hnext.2
    rw [hnext.1, hn]
    refine ⟨rfl, List.any_eq_true.2 ⟨m, hm, Text.startsWith_iff.2 ?_⟩⟩
    refine List.prefix_take_iff.2 ⟨List.prefix_append _ _, ?_⟩
    rcases hlength with rfl | rfl
    · exact hrun
    · obtain ⟨w, hw⟩ := List.prefix_take_iff.2 ⟨List.prefix_append m.toList u, hrun⟩
      rw [← hw]
      exact length_le_trimmedLength hlast w

end Lexeme

namespace Scanner

/-- The scanner stands behind a token of text. The trivia of the token are blanks, and there are
none where nothing stands next that can end a text; or the line is over. -/
structure Past (s : Scanner) (k : Token) : Prop where
  midLine : s.lineStart = false
  trivia : Text.atLineEnd s.rest = true ∨ ∃ blanks, k.EndsIn blanks ∧
    (blanks = [] ∨ endsText s.rest = true)

section
variable {mode : Mode} {kind : Kind} (hk : keepsBlanks kind = true) (t : Text)
include hk

lemma trailing_of_keeps : trailing mode kind t =
    gap (endsText (Text.dropBlanks t)) (mode.allowsComments || kind = .commandEnd) t := by
  have hstart : kind ≠ .commandStart := by rintro rfl; simp [keepsBlanks] at hk
  have hbrace : kind ≠ .leftBrace := by rintro rfl; simp [keepsBlanks] at hk
  rw [trailing, if_neg (by cases kind <;> simp [keepsBlanks, Kind.isStructural] at hk ⊢), hk]
  simp [hstart, hbrace]

/-- The trivia behind a token that keeps its blanks. -/
lemma trailing_spec : Text.atLineEnd (t.drop (Trivia.concat (trailing mode kind t)).length) = true ∨
    (Trivia.concat (trailing mode kind t)).all isBlank = true ∧
      (Trivia.concat (trailing mode kind t) = [] ∨
        endsText (t.drop (Trivia.concat (trailing mode kind t)).length) = true) := by
  have hblanks : t.drop (t.takeWhile isBlank).length = Text.dropBlanks t := by
    rw [← drop_blanks]
    simp [gapLength, gap, concat_blankTrivia]
  rw [trailing_of_keeps hk]
  generalize (mode.allowsComments || decide (kind = .commandEnd)) = comments
  cases hends : endsText (Text.dropBlanks t)
  · -- the text goes on, so no comment starts here either
    have hnone : Text.startsComment t = false := by
      by_contra hstart
      obtain ⟨u, rfl⟩ := Text.startsComment_iff.1 (by simpa using hstart)
      simp [endsText, Text.dropBlanks, isBlank, Text.startsWith] at hends
    right
    simp [gap, commentTrivia, hnone]
  · have hgap : Trivia.concat (gap true comments t) =
        t.takeWhile isBlank ++ if comments && Text.startsComment (Text.dropBlanks t) then
          Text.firstLine (Text.dropBlanks t) else [] := by
      cases comments <;> simp [gap, concat_blankTrivia, concat_commentTrivia, hblanks]
    rw [hgap]
    split
    · left
      rw [List.length_append, ← List.drop_drop, hblanks]
      exact Text.atLineEnd_drop_firstLine _
    · right
      simp [hblanks, hends]

end

variable {s s' : Scanner} {mode : Mode} {l : Lexed}

/-- Behind a token of text the scanner stands as it should. -/
lemma Takes.past (ht : Takes s mode l s') (hk : keepsBlanks l.token.kind = true)
    (hne : l.token.kind ≠ .errorToken) : s'.Past l.token := by
  cases ht with
  | dedent | blank | indent => simp [Token.ofParts, keepsBlanks] at hk
  | mismatch p _ hline hd he hl => simp [hl, Token.ofParts] at hne
  | content _ hidle hblank hl =>
    subst hl
    rw [content_token] at hk ⊢
    generalize s.body mode = t at hk ⊢
    have hnewline : (Lexeme.next mode t).kind ≠ .newline := by
      intro h
      simp [Token.ofParts, h, keepsBlanks] at hk
    refine ⟨by simpa [Token.ofParts] using hnewline, ?_⟩
    rcases trailing_spec hk (t.drop (Lexeme.next mode t).length) with hend | ⟨hall, hstop⟩
    · exact .inl hend
    · exact .inr ⟨_, ⟨hall, ⟨_, rfl⟩, Trivia.total_sizes _⟩, hstop⟩

/-- A `>` is dialogue text. -/
lemma kind_ahead_of_mark {t : Text} (hs : s.lineStart = false) (hrest : s.rest = '>' :: t) :
    (s.ahead .text).token.kind = .text := by
  have hahead : s.ahead .text = s.content .text := by
    rw [ahead, settle_of_insensitive s rfl, scan, hs]
    rfl
  rw [hahead, content_token, body_of_midLine s .text hs, hrest]
  rfl

/-- In a mode that skips no blanks, a token of the text starts where the one before it ends. -/
lemma ahead_of_midLine (hs : s.lineStart = false) (hb : mode.skipsBlanks = false)
    (hk : (s.ahead mode).token.kind ≠ .newline) (hne : (s.ahead mode).token.kind ≠ .eof) :
    ∃ trivia, (s.ahead mode).token = .ofParts [] (Lexeme.next mode s.rest).kind
      (s.rest.take (Lexeme.next mode s.rest).length) trivia := by
  have hahead : s.ahead mode = s.content mode := by
    rw [ahead, settle_of_insensitive s (by cases mode <;> simp [Mode.skipsBlanks] at hb <;> rfl),
      scan, hs]
    rfl
  rw [hahead] at hk hne ⊢
  have hbody := body_of_midLine s mode hs
  have hleading : s.leading mode = gap false mode.allowsComments s.rest := by simp [leading, hs, hb]
  rw [content_token] at hk hne ⊢
  rw [hb] at hbody
  cases hcomment : mode.allowsComments && Text.startsComment s.rest
  · have hgap : gap false mode.allowsComments s.rest = [] := by
      simp only [Bool.and_eq_false_iff] at hcomment
      rcases hcomment with h | h <;> simp [gap, commentTrivia, h]
    rw [gapLength, hgap, Trivia.concat_nil, List.length_nil, List.drop_zero] at hbody
    exact ⟨_, by rw [hleading, hgap, hbody]⟩
  · -- behind a comment the line is over
    obtain ⟨hallows, hstart⟩ := Bool.and_eq_true_iff.1 hcomment
    have hrest : s.body mode = s.rest.drop (Text.firstLine s.rest).length := by
      rw [hbody]
      simp [gapLength, gap, hallows, concat_commentTrivia, hstart]
    have hend : Text.atLineEnd (s.body mode) = true := hrest ▸ Text.atLineEnd_drop_firstLine s.rest
    rcases Lexeme.next_of_atLineEnd mode hend with h | h
    · exact absurd h hne
    · exact absurd h hk

end Scanner

end DialogueScript
