import DialogueScript.Proofs.Grammar.OpenedRules
import DialogueScript.Proofs.Parse.Cancelled
import DialogueScript.Proofs.Parse.Splice

/-!
The keyword that a command is chosen by is the keyword that it takes. The search for it reads the
text behind a `<<` by rules of its own, and the token that is read there afterwards agrees with it.
So however a tree came about, all constructs in it that are known by a keyword begin with it.
-/

namespace DialogueScript

open DialogueScript.Parser ParserState DialogueScript.Tree

namespace Scanner

/-- What a search for the keyword of a command answers is what the calls behind it take. -/
structure Foretells (s : Scanner) (mode : Mode) : Prop where
  /-- A keyword that is found stands behind a `<<`. -/
  found : ∀ k s', s.peekCommandKeyword mode = (some k, s') →
    (s'.bump mode).1.token.kind = .commandStart ∧
      ((s'.bump mode).2.bump .command).1.token.kind = k
  /-- Where a `<<` stands and no keyword is found, none stands behind it that could start a
  command. -/
  missed : ∀ s' mark s'', s.peekCommandKeyword mode = (none, s') → s'.peek mode = (mark, s'') →
    mark.token.kind = .commandStart → ∀ k ∈ commandKeywords,
      ((s''.bump mode).2.bump .command).1.token.kind = k → k = .toKw ∨ k = .asKw

variable {s : Scanner}

lemma Good.bump_looking (h : s.Good) (mode : Mode) : (s.looking mode).bump mode = s.bump mode := by
  rw [(h.looking mode).bump_eq, h.bump_eq, ahead_of_before (.refl mode),
    after_of_before (.refl mode)]

/-- **Looking for the keyword of a command agrees with reading it.** -/
lemma Good.foretells (h : s.Good) (mode : Mode) : s.Foretells mode := by
  have hlooked := h.looking mode
  have hmark : (s.bump mode).1.token = (s.ahead mode).token := by rw [h.bump_eq]
  have hkeyword : ((s.bump mode).2.bump .command).1.token =
      ((s.after mode).ahead .command).token := by
    rw [h.bump_eq, (h.after mode).bump_eq]
  refine ⟨fun k s' hfound => ?_, fun s' mark s'' hmissed hpeek hk k hmem hbehind => ?_⟩
  · rw [h.peekCommandKeyword_eq, Prod.mk.injEq] at hfound
    obtain ⟨hk, rfl⟩ := hfound
    rw [h.bump_looking, hmark, hkeyword]
    exact ⟨kind_of_commandAhead hk, h.keyword_ahead hk⟩
  · rw [h.peekCommandKeyword_eq, Prod.mk.injEq] at hmissed
    obtain ⟨hnone, rfl⟩ := hmissed
    rw [hlooked.peek_eq, Prod.mk.injEq, ahead_of_before (.refl mode)] at hpeek
    obtain ⟨rfl, rfl⟩ := hpeek
    rw [hlooked.bump_looking, h.bump_looking, hkeyword] at hbehind
    by_contra hno
    rw [not_or] at hno
    rw [h.commandAhead_of_keyword hk hbehind hmem hno.1 hno.2] at hnone
    simp at hnone

end Scanner

/-! ### The children of the root -/

namespace Parser

instance : Adds true AllOpened item := by
  unfold item
  infer_instance

variable {t : Text} {s : ParserState}

/-- What holds in front of each child of the root, wherever reading is cancelled. -/
structure Proper (t : Text) (s : ParserState) : Prop where
  whole : Whole t s
  opened : ∀ tree ∈ s.forest.inner, AllOpened tree
  rising : ∀ c ∈ s.checkpoints, c.stack.Rising

lemma proper_start (config : Config) (t : Text) (cancelAt : Option Nat) :
    Proper t (Parse.begun config t cancelAt) :=
  ⟨whole_start config t cancelAt, List.forall_mem_nil _, List.forall_mem_nil _⟩

/-- A step over the children of the root adds at most a child. -/
lemma grown_itemStep {P : Tree → Prop} [∀ k, Adds true P (child k)] (hg : s.Good) (nodes : Nat) :
    Grown true P s.mark ((itemStep nodes).after s) := by
  have hpoll := Adds.grow true P poll hg.mark
  have hpolled := Rule.good poll hg.mark
  rcases itemStep_cases hg nodes with ⟨-, -, heq⟩ | ⟨-, -, -, heq⟩ | ⟨-, -, -, heq⟩ <;> rw [heq]
  · exact hpoll
  · exact hpoll.trans (.of_same rfl rfl)
  · exact hpoll.trans (Adds.grow true P (child _) (hpolled.look .header)).of_look

lemma Proper.itemStep (h : Proper t s) (nodes : Nat) :
    (∀ tree ∈ ((itemStep nodes).after s).forest.inner, AllOpened tree) ∧
      ∀ c ∈ ((itemStep nodes).after s).checkpoints, c.stack.Rising := by
  have hgood := h.whole.good
  obtain ⟨ys, hinner, hys⟩ := (grown_itemStep (P := AllOpened) hgood nodes).inner
  have hpoints := ((reads_itemStep hgood nodes).follows hgood.mark).checkpoints
  rw [hinner, hpoints]
  exact ⟨List.forall_mem_append.2 ⟨hys, h.opened⟩,
    List.forall_mem_append.2 ⟨h.rising, List.forall_mem_singleton.2 hgood.scanner.rising⟩⟩

/-- All children of the root, by induction on the steps over them. -/
lemma Proper.items (h : Proper t s) :
    (∀ tree ∈ (Parser.items.after s).forest.inner, AllOpened tree) ∧
    ∀ c ∈ (Parser.items.after s).checkpoints, c.stack.Rising := by
  obtain ⟨nodes, u, h1, -, h2⟩ :=
    loop_ends (a := 0) (I := fun _ => Proper t) (fun nodes _ h _ hb => by
    obtain ⟨hlt, hwhole⟩ := h.whole.advances hb
    obtain ⟨hopened, hrising⟩ := h.itemStep nodes
    exact ⟨hlt, hwhole, hopened, hrising⟩) h
  rw [Parser.items, h2]
  exact h1.itemStep nodes

/-- Behind the children there is the end of the text, and an error for the rest if reading was
cancelled. -/
lemma Proper.script (h : Proper t s) :
    (∀ tree ∈ (Parser.script.after s).forest.inner, AllOpened tree) ∧
    ((Parser.script.after s).cancelled = false →
      ∀ c ∈ (Parser.script.after s).checkpoints, c.stack.Rising) := by
  obtain ⟨hopened, hrising⟩ := h.items
  by_cases hc : (Parser.items.after s).cancelled = true
  · obtain ⟨rest, v, hrest, -, -, -, hcancelled, hforest, -, heq⟩ := script_of_cancelled h.whole hc
    have hinner : (v.take .header).forest.inner = .leaf (v.scanner.ahead .header).token ::
        .node .error rest :: (Parser.items.after s).forest.inner := by
      simp [ParserState.take, Forest.add, hforest]
    have herror : AllOpened (.node .error rest) := by
      refine allOpened_of_plain rfl fun c hc => ?_
      rcases hrest with rfl | ⟨token, rfl, -⟩
      · simp at hc
      · obtain rfl := List.mem_singleton.1 hc
        exact allOpened_leaf token
    rw [heq]
    refine ⟨?_, fun hrunning => ?_⟩
    · rw [hinner]
      exact List.forall_mem_cons.2 ⟨allOpened_leaf _, List.forall_mem_cons.2 ⟨herror, hopened⟩⟩
    · rw [show (v.take .header).cancelled = v.cancelled from rfl, hcancelled] at hrunning
      simp at hrunning
  · rw [after_script h.whole.items.1 (by simpa using hc)]
    generalize Parser.items.after s = u at hopened hrising
    have hsame : (emptyFile (Parser.items.answer s) u).forest = u.forest ∧
        (emptyFile (Parser.items.answer s) u).checkpoints = u.checkpoints := by
      unfold emptyFile
      split
      · unfold ParserState.report
        split <;> exact ⟨rfl, rfl⟩
      · exact ⟨rfl, rfl⟩
    generalize emptyFile (Parser.items.answer s) u = v at hsame
    refine ⟨?_, fun _ => ?_⟩
    · exact List.forall_mem_cons.2 ⟨allOpened_leaf _, hsame.1 ▸ hopened⟩
    · exact hsame.2 ▸ hrising

end Parser

/-! ### All parses -/

namespace Parse

/-- The parses that there can be: of a text, cancelled or not, and of a text that replaces that of
another parse. -/
inductive Reached : Parse → Prop where
  | withCancel (config : Config) (t : Text) (cancelAt : Option Nat) :
      Reached (withCancel config t cancelAt)
  | reparse {old : Parse} {e : Edit} {t : Text} {r : Reparsed} : Reached old →
      old.reparse? e t = some r →
      Reached r.parse

/-- In a parse each construct with a keyword begins with it, and reading can go on at each
checkpoint. -/
structure Keyworded (p : Parse) : Prop where
  root : ∃ cs, p.tree = .node .sourceFile cs ∧ ∀ c ∈ cs, AllOpened c
  rising : ∀ c ∈ p.checkpoints, c.stack.Rising

lemma keyworded_withCancel (config : Config) (t : Text) (cancelAt : Option Nat) :
    (withCancel config t cancelAt).Keyworded := by
  obtain ⟨hopened, hrising⟩ := (proper_start config t cancelAt).script
  refine ⟨⟨_, rfl, fun c hc => hopened c (mem_trees.1 hc)⟩, fun c hc => ?_⟩
  simp only [withCancel, ofState] at hc
  split at hc
  · simp at hc
  · next hrunning => exact hrising (Bool.eq_false_iff.2 hrunning) c hc

lemma Keyworded.reparse {old : Parse} {e : Edit} {t : Text} {r : Reparsed} (h : old.Keyworded)
    (hr : old.reparse? e t = some r) : r.parse.Keyworded := by
  rcases reparse?_eq_some hr with heq | ⟨index, range, -, hchild⟩
  · rw [heq]
    exact keyworded_withCancel old.config t none
  · obtain ⟨here, next, scanner, cs, hhere, -, hscanner, htrees, -, hexchange⟩ :=
      reparseChild_eq_some hchild
    have htree := (exchange?_eq_some hexchange).1
    obtain ⟨ds, hroot, hds⟩ := h.root
    -- the node that is read again
    have hgood : ParserState.Good { scanner } := by
      obtain ⟨hat, -⟩ := Scanner.within_of_resume? hscanner
      rw [hat]
      exact ⟨Scanner.good_atLine _ _ _ (h.rising here (List.mem_of_getElem? hhere)), rfl⟩
    obtain ⟨ys, hinner, hys⟩ := (Adds.grow true AllOpened item hgood).inner
    have hnode : AllOpened (.node .dialogueNode cs) := by
      refine hys _ ?_
      have hmem : Tree.node .dialogueNode cs ∈ (item.after { scanner }).forest.trees := by
        rw [htrees]
        exact List.mem_singleton_self _
      rw [mem_trees, hinner] at hmem
      simpa using hmem
    -- takes the place of the old one
    rw [hroot, Tree.replaceChild?] at htree
    split at htree
    · refine ⟨⟨_, (Option.some.inj htree).symm, fun c hc => ?_⟩,
        rising_of_exchange? hexchange h.rising⟩
      rcases List.mem_or_eq_of_mem_set hc with hc | rfl
      · exact hds c hc
      · exact hnode
    · simp at htree

lemma Reached.keyworded {p : Parse} (h : Reached p) : p.Keyworded := by
  induction h with
  | withCancel config t cancelAt => exact keyworded_withCancel config t cancelAt
  | reparse _ hr ih => exact ih.reparse hr

/-- **Commands take the keyword that they are chosen by**: whatever was asked of a scanner before,
and in whatever mode it looks, the keyword that it finds behind a `<<` is the token that is read
there, and where it finds none, none is read there but `to` and `as`. So in every tree each
construct that is known by a keyword begins with `<<` and that keyword. -/
theorem commands_take_their_keywords :
    (∀ config t offset stack start, Scanner.resume? config t offset stack = some start →
      stack.Rising →
      ∀ (past : List Scanner.Call) (mode : Mode), (start.calls past).2.Foretells mode) ∧
    ∀ p, Reached p → AllOpened p.tree := by
  refine ⟨fun config t offset stack start hstart hstack past mode => ?_, fun p hp => ?_⟩
  · exact (Scanner.good_calls hstart hstack past).foretells mode
  · obtain ⟨cs, hroot, hcs⟩ := hp.keyworded.root
    rw [hroot]
    exact allOpened_of_plain rfl hcs

/-- The keyword of a command that is indented and has blanks and a comment around its keyword; and a
node that is read again because an edit has put a chain into it. -/
theorem commands_take_their_keywords_again :
    (∃ start s', Scanner.resume? {} "é\n  << \t else//if\n".toList 3 ⟨[1]⟩ = some start ∧
      (IndentStack.mk [1]).Rising ∧
      (start.calls [.peek .header, .bump .statement]).2.peekCommandKeyword .statement =
        (some .elseKw, s') ∧
      (s'.bump .statement).1.token.kind = .commandStart ∧
      ((s'.bump .statement).2.bump .command).1.token.kind = .elseKw) ∧
    ∃ (r : Reparsed) (cs : List Tree), Reached r.parse ∧ r.exchanged = some 0 ∧
      .node .ifClause cs ∈ r.parse.tree.subtrees ∧ Opened .ifClause cs := by
  constructor
  · let start : Scanner := .atLine {} "  << \t else//if\n".toList 3 ⟨[1]⟩
    have hstart : Scanner.resume? {} "é\n  << \t else//if\n".toList 3 ⟨[1]⟩ = some start := by
      decide +kernel
    have hrising : (IndentStack.mk [1]).Rising := by decide
    have hfound :
        ((start.calls [.peek .header, .bump .statement]).2.peekCommandKeyword .statement).1 =
        some .elseKw := by
      decide +kernel
    have hforetells := commands_take_their_keywords.1 _ _ _ _ _ hstart hrising
      [.peek .header, .bump .statement] .statement
    exact ⟨start, _, hstart, hrising, Prod.ext hfound rfl,
      hforetells.found _ _ (Prod.ext hfound rfl)⟩
  · let old : Parse := ofText {} "title: A\n---\na\n===\n".toList
    have hold : Reached old := .withCancel {} _ none
    obtain ⟨r, hr, hexchanged, tree, hmem, hnode, hkind⟩ : ∃ r ∈ old.reparse?
        (.replace ⟨13, 13⟩ "<<if 1>>\n<<endif>>\n".toList)
        "title: A\n---\n<<if 1>>\n<<endif>>\na\n===\n".toList,
        r.exchanged = some 0 ∧ ∃ tree ∈ r.parse.tree.subtrees, tree.isNode = true ∧
          tree.kind = .ifClause := by
      decide +kernel
    obtain ⟨k, cs, rfl⟩ : ∃ k cs, tree = .node k cs := by
      cases tree with
      | leaf => simp [Tree.isNode] at hnode
      | node k cs => exact ⟨k, cs, rfl⟩
    obtain rfl : k = .ifClause := hkind
    have hreached : Reached r.parse := hold.reparse hr
    exact ⟨r, cs, hreached, hexchanged, hmem,
      commands_take_their_keywords.2 r.parse hreached .ifClause cs hmem (by decide)⟩

end Parse

end DialogueScript
