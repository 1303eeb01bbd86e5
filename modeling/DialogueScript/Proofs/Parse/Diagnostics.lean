import DialogueScript.Proofs.Grammar.Placed
import DialogueScript.Proofs.Parse.Lossless
import DialogueScript.Proofs.Scanner.TokenShape

/-!
Where the diagnostics of a parse stand, whether it reads the text to its end or is cancelled: every
one in the text, so that its lines and columns can be found, and a problem within a token in a part
of a single line.
-/

namespace DialogueScript

open DialogueScript.Parser ParserState

namespace Diagnostic

/-- The range of a diagnostic is a part of the text. For a problem within a token it is a part of
one line, and not an empty one. -/
structure WellPlaced (t : Text) (d : Diagnostic) : Prop where
  placed : d.Placed t
  confined : d.problem.isLexical = true →
    ∃ part, Scanner.Covers t d.range.start d.range.stop part ∧ part ≠ [] ∧ Text.OneLine part

lemma WellPlaced.of_placed {t : Text} {d : Diagnostic} (h : d.Placed t)
    (hproblem : d.problem.isLexical = false) : d.WellPlaced t :=
  ⟨h, fun hlexical => by simp [hproblem] at hlexical⟩

/-- Lines and columns play no part in where a diagnostic stands. -/
lemma WellPlaced.congr {t : Text} {d d' : Diagnostic} (h : d'.WellPlaced t)
    (hproblem : d.problem = d'.problem) (hrange : d.range = d'.range) : d.WellPlaced t := by
  refine ⟨?_, ?_⟩
  · rw [Placed, hrange]
    exact h.placed
  · rw [hproblem, hrange]
    exact h.confined

end Diagnostic

namespace Scanner

/-- A part of a text can be cut out of it. -/
lemma Covers.slice? {t part : Text} {r : Range} (h : Covers t r.start r.stop part) :
    Text.slice? t r = some part := by
  obtain ⟨before, after, rfl, hstart, hstop⟩ := h
  have hr : r = .ofSize (Text.size before) (Text.size part) := by
    rw [Range.ofSize, ← hstop, ← hstart]
  rw [hr]
  exact Text.slice?_append before part after

/-- Both ends of a part of a text are positions of the text. -/
lemma Covers.ends {t part : Text} {start stop : Nat} (h : Covers t start stop part) :
    start ≤ stop ∧ stop ≤ Text.size t ∧ (Text.cut? t start).isSome = true ∧
      (Text.cut? t stop).isSome = true := by
  obtain ⟨before, after, rfl, rfl, rfl⟩ := h
  have h1 := Text.cut?_append before (part ++ after)
  have h2 := Text.cut?_append (before ++ part) after
  rw [← List.append_assoc] at h1
  rw [Text.size_append] at h2
  refine ⟨by omega, by simp only [Text.size_append]; omega, by rw [h1]; rfl, by rw [h2]; rfl⟩

/-- Where the own text of a token stands. -/
lemma covers_ofParts (before after : Text) (leading : List Trivia) (kind : Kind) (own : Text)
    (trailing : List Trivia) :
    Covers (before ++ ((Token.ofParts leading kind own trailing).fullText ++ after))
      ((Token.ofParts leading kind own trailing).range (Text.size before)).start
      ((Token.ofParts leading kind own trailing).range (Text.size before)).stop own := by
  refine ⟨before ++ Trivia.concat leading, Trivia.concat trailing ++ after, ?_, ?_, ?_⟩
  · simp [Token.ofParts]
  · simp [Token.range_ofParts, Range.ofSize]
  · simp [Token.range_ofParts, Range.ofSize]

end Scanner

namespace ParserState

variable {t : Text} {s s₀ : ParserState}

/-- A problem within a token lies in the token's own text, which is a part of one line. -/
lemma wellPlaced_errorsOf (hg : s.Good) (hw : s.scanner.Within t) (mode : Mode) :
    ∀ d ∈ errorsOf (s.scanner.ahead mode) s.scanner.offset, d.WellPlaced t := by
  intro d hd
  refine ⟨placed_errorsOf hg hw mode d hd, fun _ => ?_⟩
  have htakes := hg.scanner.takes mode
  have hrest := hg.rest_take mode
  obtain ⟨before, rfl, hoff⟩ := hw
  have hstart : Text.Unsplit [] (s.scanner.settle mode).rest := by simp [Text.Unsplit]
  obtain ⟨⟨leading, own, trailing, hshape⟩, -⟩ := htakes.shaped (hg.scanner.settle mode) hstart
  unfold errorsOf at hd
  split at hd
  · simp at hd
  · next e he =>
    have hk := htakes.error_iff.2 (by simp [he])
    obtain rfl := List.mem_singleton.1 hd
    refine ⟨own, ?_, ?_, hshape.own_oneLine (by simp [hk]) (by simp [hk])⟩
    · rw [hrest, hoff, hshape.parts]
      exact Scanner.covers_ofParts _ _ _ _ _ _
    · intro hnil
      simpa [hk] using hshape.own_empty.1 hnil

/-- All that was reported so far stands where it should. -/
structure Diagnosed (t : Text) (s : ParserState) : Prop where
  within : s.scanner.Within t
  wellPlaced : ∀ d ∈ s.diagnostics, d.WellPlaced t

end ParserState

lemma Reads.diagnosed {t : Text} {s₀ s : ParserState} (h : Reads s₀ s) (hg : s₀.Good)
    (hd : s₀.Diagnosed t) : s.Diagnosed t :=
  ⟨(h.follows hg).standing hd.within, (h.reports hg hd.within (Nat.zero_le _)
    (fun _ hu huw _ => wellPlaced_errorsOf hu huw) fun _ hplaced _ => .of_placed hplaced).all
      hd.wellPlaced⟩

namespace ParserState.Diagnosed

variable {t : Text} {s : ParserState}

lemma take (h : s.Diagnosed t) (hg : s.Good) (mode : Mode) : (s.take mode).Diagnosed t := by
  have hwithin := (Scanner.taken_bump hg.scanner h.within mode).2
  rw [hg.scanner.bump_eq] at hwithin
  refine ⟨hwithin, fun d hd => ?_⟩
  rw [hg.diagnostics_take] at hd
  rcases List.mem_append.1 hd with hd | hd
  · exact h.wellPlaced d hd
  · exact wellPlaced_errorsOf hg h.within mode d hd

lemma emptyFile (h : s.Diagnosed t) (hg : s.Good) (nodes : Nat) :
    (Parser.emptyFile nodes s).Diagnosed t := by
  unfold Parser.emptyFile ParserState.report
  split
  · split
    · exact (Reads.look .header (.refl s)).diagnosed hg h
    · refine ⟨h.within.settle .header, fun d hd => ?_⟩
      rcases List.mem_append.1 hd with hd | hd
      · exact h.wellPlaced d hd
      · obtain rfl := List.mem_singleton.1 hd
        obtain ⟨part, before, after, rfl, hstart, -⟩ := hg.covers_rangeAt h.within .header
        exact .of_placed ⟨[], before, part ++ after, by simp, hstart, hstart⟩ rfl
  · exact h

/-- What is left after cancelling is taken without a report. -/
lemma advanceRest (h : s.Diagnosed t) : (Parser.advanceRest.after s).Diagnosed t := by
  have hwithin := Scanner.within_bumpRest h.within
  rcases advanceRest_cases s with ⟨-, heq⟩ | ⟨-, heq⟩ <;> rw [heq] <;> exact ⟨hwithin, h.wellPlaced⟩

end ParserState.Diagnosed

/-- **All that a script reports stands where it should**, however reading ends. -/
lemma Parser.upheld_diagnosed (t : Text) : Upheld (ParserState.Diagnosed t) where
  reads _ _ hg hr hd := hr.diagnosed hg hd
  mark _ hd := ⟨hd.within, hd.wellPlaced⟩
  take _ hg hd := hd.take hg .header
  emptyFile _ nodes hg hd := hd.emptyFile hg nodes
  start _ hd := ⟨hd.within, hd.wellPlaced⟩
  complete _ hd := ⟨hd.within, hd.wellPlaced⟩
  advanceRest _ hd := hd.advanceRest

namespace Parse

/-- **Diagnostics are well placed**, whatever the settings and whenever the parse is cancelled. Both
ends of each are positions of the text in the right order, so all of them are located; and a problem
within a token stands at some text of a single line. -/
theorem diagnostics_well_placed (config : Config) (t : Text) (cancelAt : Option Nat) :
    Diagnostic.locateAll? t (finalState config t cancelAt).diagnostics =
      some (withCancel config t cancelAt).diagnostics ∧
    ∀ d ∈ (withCancel config t cancelAt).diagnostics,
      d.range.start ≤ d.range.stop ∧ d.range.stop ≤ Text.size t ∧
      (Text.cut? t d.range.start).isSome = true ∧ (Text.cut? t d.range.stop).isSome = true ∧
      (d.problem.isLexical = true →
        ∃ part, Text.slice? t d.range = some part ∧ part ≠ [] ∧ '\n' ∉ part ∧ '\r' ∉ part) := by
  have hfinal : (finalState config t cancelAt).Diagnosed t :=
    (whole_start config t cancelAt).upheld_script (upheld_diagnosed t)
      ⟨⟨[], rfl, rfl⟩, by simp [begun]⟩
  obtain ⟨ls, hls, hbare⟩ :=
    Diagnostic.locateAll?_of_placed fun d hd => (hfinal.wellPlaced d hd).placed
  have hfound : (withCancel config t cancelAt).diagnostics = ls := by
    rw [withCancel, ofState, hls]
    rfl
  rw [hfound]
  refine ⟨hls, fun d hd => ?_⟩
  obtain ⟨d', hd', hproblem, hrange⟩ := Diagnostic.exists_of_map_bare hbare hd
  have hd := (hfinal.wellPlaced d' hd').congr hproblem hrange
  obtain ⟨_, hplaced⟩ := hd.placed
  obtain ⟨h1, h2, h3, h4⟩ := hplaced.ends
  refine ⟨h1, h2, h3, h4, fun hlexical => ?_⟩
  obtain ⟨part, hpart, hne, hline⟩ := hd.confined hlexical
  refine ⟨part, hpart.slice?, hne, ?_, ?_⟩ <;> intro hmem <;>
    exact absurd (hline.not_break _ hmem) (by decide)

end Parse

end DialogueScript
