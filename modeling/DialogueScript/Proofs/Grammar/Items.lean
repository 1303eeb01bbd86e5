import DialogueScript.Parse.Basic
import DialogueScript.Proofs.Grammar.Script

/-!
The children of the root, one after the other. Each starts at a checkpoint; reading ends with the
text, or where it is cancelled.
-/

set_option synthInstance.maxSize 512

namespace DialogueScript

namespace ParserState

/-- What is remembered at the start of a child of the root. -/
def point (s : ParserState) : Checkpoint :=
  ⟨s.scanner.offset, s.scanner.stack, s.diagnostics.length⟩

/-- The state after remembering the current position. -/
def mark (s : ParserState) : ParserState := { s with checkpoints := s.checkpoints ++ [s.point] }

lemma Good.mark {s : ParserState} (h : s.Good) : s.mark.Good := ⟨h.scanner, h.silent⟩

end ParserState

namespace Parser

open ParserState

/-- What a step over the children of the root can do: stop, find the end of the text, or read a
child. -/
lemma itemStep_cases {s : ParserState} (hg : s.Good) (nodes : Nat) :
    (poll.answer s.mark = true ∧ (itemStep nodes).answer s = .done nodes ∧
      (itemStep nodes).after s = poll.after s.mark) ∨
    (poll.answer s.mark = false ∧ (poll.after s.mark).kindAt .header = .eof ∧
      (itemStep nodes).answer s = .done nodes ∧
      (itemStep nodes).after s = (poll.after s.mark).look .header) ∨
    (poll.answer s.mark = false ∧ (poll.after s.mark).kindAt .header ≠ .eof ∧
      (itemStep nodes).answer s =
        .yield
          (if nodeFirst.contains ((poll.after s.mark).kindAt .header) then nodes + 1 else nodes) ∧
      (itemStep nodes).after s = (child ((poll.after s.mark).kindAt .header)).after
        ((poll.after s.mark).look .header)) := by
  have hu := Rule.good poll hg.mark
  have h1 : (itemStep nodes).answer s = (if poll.answer s.mark then pure (.done nodes)
      else peekKind .header >>= itemAt nodes : Parser _).answer (poll.after s.mark) := rfl
  have h2 : (itemStep nodes).after s = (if poll.answer s.mark then pure (.done nodes)
      else peekKind .header >>= itemAt nodes : Parser _).after (poll.after s.mark) := rfl
  rw [h1, h2]
  generalize poll.after s.mark = u at *
  cases poll.answer s.mark
  · right
    simp only [Bool.false_eq_true, if_false, answer_bind, after_bind, hu.answer_peekKind,
      hu.after_peekKind, itemAt]
    by_cases he : u.kindAt .header = .eof <;> simp [he]
  · left
    simp

lemma good_itemStep {s : ParserState} (hg : s.Good) (nodes : Nat) :
    ((itemStep nodes).after s).Good := by
  have hu := Rule.good poll hg.mark
  rcases itemStep_cases hg nodes with ⟨-, -, heq⟩ | ⟨-, -, -, heq⟩ | ⟨-, -, -, heq⟩ <;> rw [heq]
  · exact hu
  · exact hu.look .header
  · exact ((reading_child _).follows (hu.look .header)).good

/-- What holds at the start of each child: everything so far is in the finished trees. -/
structure Whole (t : Text) (s : ParserState) : Prop where
  good : s.Good
  atHeader : s.cancelled = true ∨ AtHeader s
  text : s.forest.text ++ s.scanner.rest = t
  outer : s.forest.outer = []

lemma whole_start (config : Config) (t : Text) (cancelAt : Option Nat) :
    Whole t (Parse.begun config t cancelAt) := by
  have hgood : (Parse.begun config t cancelAt).Good :=
    ⟨Scanner.good_atLine config t 0 IndentStack.rising_empty, rfl⟩
  exact ⟨hgood, .inr (Ended.atHeader hgood (.inl rfl)), rfl, rfl⟩

/-- A step over the children loses no text. -/
lemma Whole.itemStep {t : Text} {s : ParserState} (h : Whole t s) (nodes : Nat) :
    ((itemStep nodes).after s).Good ∧
      ((itemStep nodes).after s).forest.text ++ ((itemStep nodes).after s).scanner.rest = t ∧
      ((itemStep nodes).after s).forest.outer = [] := by
  have hmark := h.good.mark
  have hpoll := Rule.follows poll hmark
  have hlook := hpoll.trans (.look hpoll.good .header)
  have hchild := hlook.trans
    ((reading_child ((poll.after s.mark).kindAt .header)).follows (hpoll.good.look .header))
  rcases itemStep_cases h.good nodes with ⟨-, -, heq⟩ | ⟨-, -, -, heq⟩ | ⟨-, -, -, heq⟩ <;> rw [heq]
  · exact ⟨hpoll.good, hpoll.text.trans h.text, hpoll.outer.trans h.outer⟩
  · exact ⟨hlook.good, hlook.text.trans h.text, hlook.outer.trans h.outer⟩
  · exact ⟨hchild.good, hchild.text.trans h.text, hchild.outer.trans h.outer⟩

/-- A step that goes on has read a child, which takes a token. -/
lemma advances_itemStep :
    Advances (fun _ s => s.cancelled = true ∨ AtHeader s) Parser.itemStep := by
  intro nodes s hg hat next hb
  have hu := Rule.good poll hg.mark
  have hlook := hu.look .header
  rcases itemStep_cases hg nodes with ⟨-, heq, -⟩ | ⟨-, -, heq, -⟩ | ⟨hp, hk, -, heq⟩
  · simp [heq] at hb
  · simp [heq] at hb
  · have hscanner : (poll.after s.mark).scanner = s.scanner := scanner_poll s.mark
    have hrunning : s.cancelled = false := running_of_poll (s := s.mark) hp
    have hat : AtHeader ((poll.after s.mark).look .header) := by
      refine AtHeader.look ?_
      rw [AtHeader, kindAt, hscanner]
      exact hat.resolve_left (by simp [hrunning])
    rw [heq, ← kindAt_look]
    have hk' : ((poll.after s.mark).look .header).kindAt .header ≠ .eof := by rwa [kindAt_look]
    refine ⟨?_, atHeader_child hlook hat hk'⟩
    have := (child_spec hlook hat hk').1
    rwa [budget_look, hscanner] at this

lemma Whole.advances {t : Text} {s : ParserState} (h : Whole t s) {nodes next : Nat}
    (hb : (Parser.itemStep nodes).answer s = .yield next) :
    ((Parser.itemStep nodes).after s).scanner.budget < s.scanner.budget ∧
      Whole t ((Parser.itemStep nodes).after s) := by
  obtain ⟨hgood, htext, houter⟩ := h.itemStep nodes
  obtain ⟨hlt, hat⟩ := advances_itemStep h.good h.atHeader hb
  exact ⟨hlt, hgood, hat, htext, houter⟩

/-- The children of the root end with the text, or where reading is cancelled. -/
lemma Whole.items {t : Text} {s : ParserState} (h : Whole t s) :
    (Parser.items.after s).Good ∧
      (Parser.items.after s).forest.text ++ (Parser.items.after s).scanner.rest = t ∧
      (Parser.items.after s).forest.outer = [] ∧
      ((Parser.items.after s).cancelled = true ∨ (Parser.items.after s).kindAt .header = .eof) := by
  obtain ⟨nodes, u, h1, h2, h3⟩ := loop_ends (I := fun _ => Whole t)
    (fun _ _ h _ hb => h.advances hb) h (a := 0)
  obtain ⟨hgood, htext, houter⟩ := h1.itemStep nodes
  rw [Parser.items, h3]
  refine ⟨hgood, htext, houter, ?_⟩
  rcases itemStep_cases h1.good nodes with ⟨hp, -, heq⟩ | ⟨-, hk, -, heq⟩ | ⟨-, -, heq, -⟩
  · rw [heq]
    exact .inl (poll_stop hp)
  · rw [heq, kindAt_look]
    exact .inr hk
  · rw [heq] at h2
    simp at h2

/-- **What each child of the root keeps**, all of them keep together, where reading is not
cancelled. -/
lemma Whole.keeps {t : Text} {s : ParserState} (h : Whole t s) (hq : s.Quiet)
    {I : ParserState → Prop} (hs : I s) (hlook : ∀ ⦃u⦄, I u → I (u.mark.look .header))
    (hchild : ∀ ⦃u⦄, u.Good → u.Quiet → AtHeader u → I u → I ((child (u.kindAt .header)).after u)) :
    (Parser.items.after s).Good ∧ (Parser.items.after s).Quiet ∧ I (Parser.items.after s) := by
  have hstep : ∀ {u : ParserState}, Whole t u → u.Quiet → I u → ∀ nodes,
      ((Parser.itemStep nodes).after u).Quiet ∧ I ((Parser.itemStep nodes).after u) := by
    intro u hu huq hIu nodes
    have hmark : u.mark.Quiet := ⟨huq.never, huq.running⟩
    have hquiet : (u.mark.look .header).Quiet := ⟨huq.never, huq.running⟩
    have hgood := hu.good.mark.look .header
    have hat : AtHeader (u.mark.look .header) :=
      AtHeader.look (s := u.mark) (hu.atHeader.resolve_left (by simp [huq.running]))
    obtain ⟨hpoll, hafter⟩ := Quiet.poll hmark
    rcases itemStep_cases hu.good nodes with ⟨hp, -, -⟩ | ⟨-, -, -, heq⟩ | ⟨-, -, -, heq⟩
    · simp [hpoll] at hp
    · rw [heq, hafter]
      exact ⟨hquiet, hlook hIu⟩
    · rw [heq, hafter, ← kindAt_look]
      exact ⟨((reading_child _).follows hgood).quiet hquiet, hchild hgood hquiet hat (hlook hIu)⟩
  obtain ⟨nodes, u, ⟨h1, h2, h3⟩, -, h4⟩ := loop_ends (a := 0)
    (I := fun _ u => Whole t u ∧ u.Quiet ∧ I u) (fun nodes _ ⟨h1, h2, h3⟩ _ hb => by
      obtain ⟨h4, h5⟩ := h1.advances hb
      exact ⟨h4, h5, hstep h1 h2 h3 nodes⟩) ⟨h, hq, hs⟩
  rw [← Parser.items] at h4
  rw [h4]
  exact ⟨good_itemStep h1.good nodes, hstep h1 h2 h3 nodes⟩

/-- The error for a file without nodes. -/
def emptyFile (nodes : Nat) (s : ParserState) : ParserState :=
  if nodes = 0 then
    (s.look .header).report (.empty (s.rangeAt .header).start) .emptyFile
      "expected at least one node"
  else s

/-- A script that is read to its end. -/
lemma after_script {s : ParserState} (hg : (items.after s).Good)
    (hc : (items.after s).cancelled = false) :
    script.after s = (emptyFile (items.answer s) (items.after s)).take .header := by
  have hcancel : isCancelled.answer (items.after s) = (items.after s).cancelled ∧
      isCancelled.after (items.after s) = items.after s := ⟨rfl, rfl⟩
  rw [script, after_bind, scriptTail, after_bind, hcancel.1, hcancel.2, hc, emptyFile]
  generalize items.answer s = nodes, items.after s = u at *
  by_cases hn : nodes = 0
  · have hr := (hg.look .header).report (.empty (u.rangeAt .header).start) .emptyFile
      "expected at least one node"
    simp [hn, hg, hr]
  · simp [hn, hg]

/-- What each child of the root keeps, and the report and the token at the end of the file, a whole
script keeps. -/
lemma Whole.keeps_script {t : Text} {s : ParserState} (h : Whole t s) (hq : s.Quiet)
    {I : ParserState → Prop} (hs : I s) (hlook : ∀ ⦃u⦄, I u → I (u.mark.look .header))
    (hchild : ∀ ⦃u⦄, u.Good → u.Quiet → AtHeader u → I u → I ((child (u.kindAt .header)).after u))
    (hempty : ∀ ⦃u⦄ range, I u →
      I ((u.look .header).report range .emptyFile "expected at least one node"))
    (htake : ∀ ⦃u⦄, u.Good → I u → I (u.take .header)) : I (Parser.script.after s) := by
  obtain ⟨hgood, hquiet, hI⟩ := h.keeps hq hs hlook hchild
  rw [after_script hgood hquiet.running, emptyFile]
  split
  · exact htake ((hgood.look .header).report _ _ _) (hempty _ hI)
  · exact htake hgood hI

/-- A script that is cancelled. -/
lemma after_script_of_cancelled {s : ParserState} (hc : (items.after s).cancelled = true) :
    script.after s = (bump .header).after ((node .error advanceRest).after (items.after s)) := by
  have hcancel : isCancelled.answer (items.after s) = (items.after s).cancelled ∧
      isCancelled.after (items.after s) = items.after s := ⟨rfl, rfl⟩
  rw [script, after_bind, scriptTail, after_bind, hcancel.1, hcancel.2, hc]
  simp

end Parser

end DialogueScript
