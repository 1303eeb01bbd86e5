import DialogueScript.Proofs.Grammar.Siblings
import DialogueScript.Proofs.Scanner.Calls

/-!
Where diagnostics stand. Each one is reported at a token or at the current position, so its range is
a part of the text, and its lines and columns can be found. They depend on nothing but the range.
-/

namespace DialogueScript

open ParserState

/-! ### Computations that may fail, one for each element of a list -/

section

variable {α β : Type} {f : α → Option β} {l : List α}

lemma forall₂_of_mapM {l' : List β} (h : l.mapM f = some l') :
    List.Forall₂ (fun a b => f a = some b) l l' := by
  induction l generalizing l' with
  | nil =>
    obtain rfl : l' = [] := by simpa using h.symm
    exact .nil
  | cons a l ih =>
    rw [List.mapM_cons] at h
    obtain ⟨b, h1, h⟩ := Option.bind_eq_some_iff.1 h
    obtain ⟨l'', h2, h⟩ := Option.bind_eq_some_iff.1 h
    obtain rfl : b :: l'' = l' := by simpa using h
    exact .cons h1 (ih h2)

/-- Each element of the one list comes with one of the other. -/
lemma exists_of_forall₂ {R : α → β → Prop} {l' : List β} (h : List.Forall₂ R l l') {b : β}
    (hb : b ∈ l') :
    ∃ a ∈ l, R a b := by
  induction h with
  | nil => simp at hb
  | @cons a b' l l' hr _ ih =>
    rcases List.mem_cons.1 hb with rfl | hb
    · exact ⟨a, List.mem_cons_self, hr⟩
    · obtain ⟨a', ha', hr'⟩ := ih hb
      exact ⟨a', List.mem_cons_of_mem a ha', hr'⟩

lemma exists_mapM (h : ∀ a ∈ l, ∃ b, f a = some b) : ∃ l', l.mapM f = some l' := by
  induction l with
  | nil => exact ⟨[], rfl⟩
  | cons a l ih =>
    obtain ⟨b, hb⟩ := h a List.mem_cons_self
    obtain ⟨l', hl'⟩ := ih fun c hc => h c (List.mem_cons_of_mem a hc)
    exact ⟨b :: l', by simp [List.mapM_cons, hb, hl']⟩

end

/-! ### Places in a text -/

namespace LineCol

/-- The position behind a text that stands before another. -/
lemma walk?_append (p : LineCol) (s t : Text) :
    walk? p (s ++ t) (Text.size s) = some (s.foldl step p) := by
  induction s generalizing p with
  | nil => simp [Text.size, walk?]
  | cons c s ih =>
    obtain ⟨n, hn⟩ : ∃ n, Text.size (c :: s) = n + 1 :=
      ⟨Text.size (c :: s) - 1, by have := c.utf8Size_pos; simp only [Text.size]; omega⟩
    have hs : n + 1 - c.utf8Size = Text.size s := by simp only [Text.size] at hn; omega
    have hc : c.utf8Size ≤ n + 1 := by simp only [Text.size] at hn; omega
    rw [hn, List.cons_append, walk?, if_pos hc, hs, ih, List.foldl_cons]

/-- Only the bytes at which a text can be cut have a line and a column. -/
lemma split_of_walk? {p q : LineCol} {t : Text} {n : Nat} (h : walk? p t n = some q) :
    ∃ before after, t = before ++ after ∧ n = Text.size before := by
  induction t generalizing p n with
  | nil =>
    rcases n with _ | n
    · exact ⟨[], [], rfl, rfl⟩
    · simp [walk?] at h
  | cons c t ih =>
    rcases n with _ | n
    · exact ⟨[], c :: t, rfl, rfl⟩
    · rw [walk?] at h
      split at h
      · next hc =>
        obtain ⟨before, after, rfl, hn⟩ := ih h
        exact ⟨c :: before, after, rfl, by simp only [Text.size]; omega⟩
      · simp at h

end LineCol

namespace Diagnostic

/-- The range of a diagnostic is a part of the text. -/
def Placed (t : Text) (d : Diagnostic) : Prop :=
  ∃ part, Scanner.Covers t d.range.start d.range.stop part

lemma Placed.ordered {t : Text} {d : Diagnostic} (h : d.Placed t) :
    d.range.start ≤ d.range.stop := by
  obtain ⟨_, _, _, -, hstart, hstop⟩ := h
  omega

/-- A diagnostic without its lines and columns. -/
def bare (d : Diagnostic) : Diagnostic := { d with start := .zero, stop := .zero }

lemma locate_bare (t : Text) (d : Diagnostic) :
    (d.bare.locate t).toOption = (d.locate t).toOption := by
  simp only [locate, bare]
  split
  · rfl
  · split <;> rfl

lemma locateAll?_bare (t : Text) (ds : List Diagnostic) :
    locateAll? t (ds.map bare) = locateAll? t ds := by
  simp only [locateAll?, List.mapM_map]
  exact congrArg (ds.mapM ·) (funext (locate_bare t))

/-- Lines and columns are found anew, whatever they were before. -/
lemma locateAll?_congr {t : Text} {ds ds' : List Diagnostic} (h : ds.map bare = ds'.map bare) :
    locateAll? t ds = locateAll? t ds' := by
  rw [← locateAll?_bare, h, locateAll?_bare]

lemma Placed.locate {t : Text} {d : Diagnostic} (h : d.Placed t) :
    ∃ d', (d.locate t).toOption = some d' := by
  obtain ⟨part, before, after, rfl, hstart, hstop⟩ := h
  have h1 := LineCol.walk?_append .zero before (part ++ after)
  have h2 := LineCol.walk?_append .zero (before ++ part) after
  rw [← List.append_assoc, ← hstart] at h1
  rw [Text.size_append, ← hstop] at h2
  simp only [Diagnostic.locate, LineCol.of?, h1, h2]
  exact ⟨_, rfl⟩

/-- A diagnostic whose lines and columns were found stands in the text. -/
lemma Placed.of_locate {t : Text} {d d' : Diagnostic} (h : (d.locate t).toOption = some d')
    (hle : d.range.start ≤ d.range.stop) : d.Placed t := by
  unfold Diagnostic.locate at h
  split at h
  · simp [Except.toOption] at h
  · next _ hstart =>
    split at h
    · simp [Except.toOption] at h
    · next _ hstop =>
      obtain ⟨a, b, h1, h2⟩ := LineCol.split_of_walk? hstart
      obtain ⟨c, e, h3, h4⟩ := LineCol.split_of_walk? hstop
      obtain ⟨z, rfl, -⟩ := Text.split_of_size_le (h3.symm.trans h1) (by omega)
      exact ⟨z, a, e, h3, h2, h4.trans (Text.size_append a z)⟩

/-- Finding the lines and columns changes nothing else. -/
lemma bare_of_locate {t : Text} {d d' : Diagnostic} (h : (d.locate t).toOption = some d') :
    d'.bare = d.bare := by
  unfold Diagnostic.locate at h
  split at h
  · simp [Except.toOption] at h
  · split at h
    · simp [Except.toOption] at h
    · obtain rfl := by simpa [Except.toOption] using h
      rfl

lemma map_bare_of_locateAll? {t : Text} {ds ls : List Diagnostic} (h : locateAll? t ds = some ls) :
    ls.map bare = ds.map bare := by
  have hlocated := (forall₂_of_mapM h).imp fun _ _ => bare_of_locate
  clear h
  induction hlocated with
  | nil => rfl
  | cons hd _ ih => rw [List.map_cons, List.map_cons, hd, ih]

/-- Diagnostics that stand in the text can be located. -/
lemma locateAll?_of_placed {t : Text} {ds : List Diagnostic} (h : ∀ d ∈ ds, d.Placed t) :
    ∃ ls, locateAll? t ds = some ls ∧ ls.map bare = ds.map bare := by
  obtain ⟨ls, hls⟩ := exists_mapM fun d hd => (h d hd).locate
  exact ⟨ls, hls, map_bare_of_locateAll? hls⟩

/-- Diagnostics that are located stand in the text. -/
lemma placed_of_locateAll? {t : Text} {ds ls : List Diagnostic} (h : locateAll? t ds = some ls)
    (hle : ∀ d ∈ ds, d.range.start ≤ d.range.stop) : ∀ d ∈ ls, d.Placed t := by
  intro d' hd'
  obtain ⟨d, hd, hlocated⟩ := exists_of_forall₂ (forall₂_of_mapM h) hd'
  have hrange : d'.range = d.range := congrArg (·.range) (bare_of_locate hlocated)
  rw [Placed, hrange]
  exact Placed.of_locate hlocated (hle d hd)

/-- What was located is what was to be located, up to lines and columns. -/
lemma exists_of_map_bare {ds ls : List Diagnostic} (h : ls.map bare = ds.map bare) {d : Diagnostic}
    (hd : d ∈ ls) : ∃ d' ∈ ds, d.problem = d'.problem ∧ d.range = d'.range := by
  have hmem : d.bare ∈ ds.map bare := h ▸ List.mem_map_of_mem hd
  obtain ⟨d', hd', heq⟩ := List.mem_map.1 hmem
  exact ⟨d', hd', congrArg (·.problem) heq.symm, congrArg (·.range) heq.symm⟩

lemma map_bare_located (t : Text) (ds : List Diagnostic) :
    ((locateAll? t ds).getD ds).map bare = ds.map bare := by
  cases h : locateAll? t ds with
  | none => rfl
  | some ls => exact map_bare_of_locateAll? h

end Diagnostic

namespace ParserState

variable {t : Text} {s₀ s : ParserState}

lemma Follows.standing (h : Follows s₀ s) (hw : s₀.scanner.Within t) : s.scanner.Within t := by
  obtain ⟨pre, rfl, hpre⟩ := hw
  obtain ⟨y, hy⟩ := h.suffix
  have hoff := h.offset
  refine ⟨pre ++ y, by rw [← hy, List.append_assoc], ?_⟩
  rw [← hy, Text.size_append] at hoff
  rw [Text.size_append]
  omega

/-- The token that stands next is a part of the text. -/
lemma Good.covers_rangeAt (hg : s.Good) (hw : s.scanner.Within t) (mode : Mode) :
    ∃ part, Scanner.Covers t (s.rangeAt mode).start (s.rangeAt mode).stop part := by
  have hproper := (hg.scanner.takes mode).proper
  have hrest := hg.rest_take mode
  obtain ⟨pre, rfl, hpre⟩ := hw
  obtain ⟨h1, h2, -⟩ := hproper.range s.scanner.offset
  obtain ⟨lead, own, trail, hfull, hlead, htrail⟩ := hproper
  rw [hg.rangeAt_eq]
  refine ⟨own, pre ++ lead, trail ++ (s.take mode).scanner.rest, ?_, ?_, ?_⟩
  · rw [hrest, hfull]
    simp
  · rw [h1, hlead, hpre, Text.size_append]
  · rw [Token.size, hfull, Text.size_append, Text.size_append] at h2
    rw [Text.size_append]
    omega

lemma placed_errorsOf (hg : s.Good) (hw : s.scanner.Within t) (mode : Mode) :
    ∀ d ∈ errorsOf (s.scanner.ahead mode) s.scanner.offset, d.Placed t := by
  intro d hd
  have hcovers := hg.covers_rangeAt hw mode
  rw [hg.rangeAt_eq] at hcovers
  unfold errorsOf at hd
  split at hd
  · simp at hd
  · obtain rfl := List.mem_singleton.1 hd
    exact hcovers

lemma Good.offset_le_rangeAt (hg : s.Good) (mode : Mode) :
    s.scanner.offset ≤ (s.rangeAt mode).start := by
  obtain ⟨hstart, -⟩ := (hg.scanner.takes mode).proper.range s.scanner.offset
  rw [hg.rangeAt_eq, hstart]
  omega

/-- All that was reported from one state to another has a property. -/
def Reports (P : Diagnostic → Prop) (s u : ParserState) : Prop :=
  ∃ ds, u.diagnostics = s.diagnostics ++ ds ∧ ∀ d ∈ ds, P d

namespace Reports

variable {P : Diagnostic → Prop} {s u v : ParserState}

lemma of_eq (h : u.diagnostics = s.diagnostics) : Reports P s u := ⟨[], by simp [h], by simp⟩

lemma refl (s : ParserState) : Reports P s s := of_eq rfl

lemma trans (h : Reports P s u) (h' : Reports P u v) : Reports P s v := by
  obtain ⟨ds, h1, h2⟩ := h
  obtain ⟨ds', h3, h4⟩ := h'
  exact ⟨ds ++ ds', by rw [h3, h1, List.append_assoc], List.forall_mem_append.2 ⟨h2, h4⟩⟩

lemma one {d : Diagnostic} (h : u.diagnostics = s.diagnostics ++ [d]) (hd : P d) : Reports P s u :=
  ⟨[d], h, by simpa using hd⟩

/-- What holds of all that was reported before holds of all that was reported then. -/
lemma all (h : Reports P s u) (hs : ∀ d ∈ s.diagnostics, P d) : ∀ d ∈ u.diagnostics, P d := by
  obtain ⟨ds, h1, h2⟩ := h
  rw [h1]
  exact List.forall_mem_append.2 ⟨hs, h2⟩

end Reports

end ParserState

/-- **What a rule reports** is within the tokens it takes, or stands in the text and is not; and
none of it lies before the position where the rule starts. -/
lemma Reads.reports {t : Text} {P : Diagnostic → Prop} {s₀ s : ParserState} {n : Nat}
    (h : Reads s₀ s) (hg : s₀.Good) (hw : s₀.scanner.Within t) (hn : n ≤ s₀.scanner.offset)
    (hwithin : ∀ ⦃u : ParserState⦄, u.Good → u.scanner.Within t → n ≤ u.scanner.offset →
      ∀ mode, ∀ d ∈ errorsOf (u.scanner.ahead mode) u.scanner.offset, P d)
    (hbetween : ∀ d : Diagnostic, d.Placed t → n ≤ d.range.start →
      d.problem.isLexical = false → P d) :
    Reports P s₀ s := by
  induction h with
  | refl => exact .refl _
  | look mode _ ih => exact (ih hg hw hn).trans (.of_eq rfl)
  | @take s₀ s mode hr _ ih =>
    have hf := hr.follows hg
    exact (ih hg hw hn).trans ⟨_, hf.good.diagnostics_take mode,
      hwithin hf.good (hf.standing hw) (hn.trans hf.offset_le) mode⟩
  | @report s₀ s₁ s mode e m hr hr' ih ih' =>
    have hf := hr.follows hg
    have hle := hn.trans hf.offset_le
    refine ((ih hg hw hn).trans (ih' hf.good (hf.standing hw) hle)).trans ?_
    unfold ParserState.report
    split
    · exact .refl _
    · exact .one rfl (hbetween _ (hf.good.covers_rangeAt (hf.standing hw) mode)
        (hle.trans (hf.good.offset_le_rangeAt mode)) rfl)
  | @poll s₀ s hr ih =>
    have hf := hr.follows hg
    obtain ⟨pre, hpre, hoff⟩ := hf.standing hw
    refine (ih hg hw hn).trans ?_
    rcases poll_cases s with ⟨-, h1⟩ | ⟨-, -, h1⟩ | ⟨-, -, h1⟩ <;> rw [h1]
    · exact .refl _
    · exact .one rfl (hbetween _ ⟨[], pre, s.scanner.rest, by simpa using hpre, hoff, hoff⟩
        (hn.trans hf.offset_le) rfl)
    · exact .of_eq rfl
  | @node s₀ s s' k hr _ ih ih' =>
    have hf := hr.follows hg
    have hinner := ih' ⟨hf.good.scanner, hf.good.silent⟩ (hf.standing hw) (hn.trans hf.offset_le)
    exact ((ih hg hw hn).trans hinner).trans (.of_eq rfl)
  | @abandon s₀ s s' hr _ ih ih' =>
    have hf := hr.follows hg
    have hinner := ih' ⟨hf.good.scanner, hf.good.silent⟩ (hf.standing hw) (hn.trans hf.offset_le)
    exact ((ih hg hw hn).trans hinner).trans (.of_eq rfl)
  | @around s₀ s s' k hr _ ih ih' =>
    have hf := hr.follows hg
    have hinner := ih' ⟨hf.good.scanner, hf.good.silent⟩ (hf.standing hw) (hn.trans hf.offset_le)
    exact ((ih hg hw hn).trans hinner).trans (.of_eq rfl)

/-- A diagnostic stands in the text, at or behind a position. -/
structure Diagnostic.PlacedFrom (t : Text) (n : Nat) (d : Diagnostic) : Prop where
  placed : d.Placed t
  from_le : n ≤ d.range.start

/-- **Whatever a rule reports** stands in the text, at or behind the position where the rule
starts. -/
lemma Reads.placed {t : Text} {s₀ s : ParserState} {n : Nat} (h : Reads s₀ s) (hg : s₀.Good)
    (hw : s₀.scanner.Within t) (hn : n ≤ s₀.scanner.offset) : Reports (·.PlacedFrom t n) s₀ s := by
  refine h.reports hg hw hn (fun u hu huw hle mode d hd => ⟨placed_errorsOf hu huw mode d hd, ?_⟩)
    fun d hd hle _ => ⟨hd, hle⟩
  have hstart := hle.trans (hu.offset_le_rangeAt mode)
  rw [hu.rangeAt_eq] at hstart
  unfold errorsOf at hd
  split at hd
  · simp at hd
  · obtain rfl := List.mem_singleton.1 hd
    exact hstart

/-- What is reported for the children of the root stands in the text, at or behind the first of
them. -/
lemma Parser.Siblings.placed {t : Text} {s u : ParserState} {trees : List Tree} {n : Nat}
    (h : Siblings s trees u) (hs : s.Ready) (hw : s.scanner.Within t) (hn : n ≤ s.scanner.offset) :
    Reports (·.PlacedFrom t n) s u := by
  induction h with
  | nil => exact .refl _
  | @cons s u tree trees hk htree _ ih =>
    have hreads : Reads s.mark s.next :=
      (Reads.look .header (.refl s.mark)).trans (reading_child _ (hs.good.mark.look .header))
    have hf := hs.follows_next
    have hchild : Reports (·.PlacedFrom t n) s s.next := hreads.placed hs.good.mark hw hn
    exact hchild.trans (ih (hs.next hk) (hf.standing hw) (hn.trans hf.offset_le))

end DialogueScript
