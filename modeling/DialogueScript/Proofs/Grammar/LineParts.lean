import DialogueScript.Proofs.Grammar.ExpressionParts

/-!
The parts that the rules for lines of dialogue make. What is missing in a condition or behind `#` is
reported at the latest where the line ends.
-/

set_option synthInstance.maxSize 4096

namespace DialogueScript

namespace Parser

open ParserState

variable {flat : Bool} {s : ParserState}

/-! ### Interpolations -/

section
variable (levels : Nat) (mode : Mode)

/-- An expression in braces. -/
lemma makes_interpolation : Makes Reported s (interpolation levels mode) fun _ ts _ =>
    NodeOf .interpolation ts := by
  have := reportsOwed_advanceTo interpolationEnds (by decide)
  have hpays : ReportsOwed .expr (eat .expr .rightBrace >>= fun b => if (!b) = true then
      error .expr "expected `\x7d`" >>= fun _ =>
        node .error (advanceTo interpolationEnds) >>= fun _ =>
          eat .expr .rightBrace >>= fun _ => pure ()
      else pure ()) :=
    .eat (by simp) (fun _ => inferInstance) (by rw [if_pos (by simp)]; infer_instance)
  unfold interpolation interpolationEnd
  refine Finds.inNode (.behind fun _ => .before (finds_expr levels)) ?_
  rintro cs - _ hc ⟨k, ds, hk, rfl⟩
  exact Tree.among?_isSome hc hk

instance : Builds Reported false (interpolation levels mode) :=
  .of_makes fun _ => makes_interpolation levels mode

end

/-! ### Text -/

instance (mode : Mode) (k : Kind) (p : Parser Bool) [Readable p] [hp : ReportsOwed mode p] :
    ReportsOwed mode (nodeIf k p) where
  reported s hg hq ho := by
    have h := hp.reported (good_start hg) (quiet_start hq) ho
    rw [Parser.after, run_nodeIf]
    split <;> exact h

/-- What makes a line's text: text, an escape or an interpolation. -/
def IsLinePart (t : Tree) : Prop :=
  IsToken .text t ∨ IsToken .textEscape t ∨ IsNode .interpolation t

lemma IsLinePart.partsAmong_ne {cs : List Tree} (h : ∃ t ∈ cs, IsLinePart t) :
    linePartsAmong cs ≠ [] := by
  obtain ⟨t, ht, ⟨token, hk, rfl⟩ | ⟨token, hk, rfl⟩ | ⟨ds, rfl⟩⟩ := h
  · exact Tree.linePartsAmong_of_token ht (.inl hk)
  · exact Tree.linePartsAmong_of_token ht (.inr hk)
  · exact Tree.linePartsAmong_of_interpolation ht

/-- What is known of a text that has been read so far, where `IsPart` says what makes it: something
was found, or nothing was, and what stands next is no error. -/
def TextFound (IsPart : Tree → Prop) (mode : Mode) (found : Bool) (ts : List Tree)
    (u : ParserState) : Prop :=
  found = true ∧ (∃ t ∈ ts, IsPart t) ∨ found = false ∧ u.kindAt mode ≠ .errorToken

section
variable {IsPart : Tree → Prop} (levels : Nat) (first mode : Mode) (ts : List Tree)

lemma makes_textToken (hpart : ∀ t, IsToken (s.kindAt mode) t → IsPart t)
    (hne : s.kindAt mode ≠ .eof) :
    Makes Reported s (advance mode >>= fun _ => pure (ForInStep.yield true)) fun r us u =>
      TextFound IsPart first r.value (ts ++ us) u := by
  refine (Makes.advance mode hne).map fun _ us _ hus => .inl ⟨rfl, ?_⟩
  obtain ⟨⟨token, ht, rfl⟩, -⟩ := hus
  exact ⟨.leaf token, by simp, hpart _ ⟨token, ht, rfl⟩⟩

lemma makes_textInterpolation (hpart : ∀ t, IsNode .interpolation t → IsPart t) :
    Makes Reported s (interpolation levels mode >>= fun _ => pure (ForInStep.yield true))
      fun r us u => TextFound IsPart first r.value (ts ++ us) u := by
  refine (makes_interpolation levels mode).map fun _ us _ hus => .inl ⟨rfl, ?_⟩
  obtain ⟨cs, rfl⟩ := hus
  exact ⟨.node .interpolation cs, by simp, hpart _ ⟨cs, rfl⟩⟩

end

section
variable (levels : Nat) (first : Mode)

lemma makes_textStep {found : Bool} {ts : List Tree} (h : TextFound IsLinePart first found ts s) :
    Makes Reported s (textStep levels first found) fun r us u =>
      TextFound IsLinePart first r.value (ts ++ us) u := by
  have hmode : found = false → (if found = true then Mode.text else first) = first := by
    rintro rfl
    rfl
  unfold textStep
  generalize (if found = true then Mode.text else first) = mode at hmode ⊢
  refine .peekKind ?_
  rw [← kindAt_look s mode]
  split
  · next hk => exact makes_textToken _ _ _ (fun t ht => .inl (hk ▸ ht)) (by simp [hk])
  · next hk => exact makes_textToken _ _ _ (fun t ht => .inr (.inl (hk ▸ ht))) (by simp [hk])
  · exact makes_textInterpolation _ _ _ _ fun _ ht => .inr (.inr ht)
  · next hk => exact .of_reported fun hg hq => ReportsOwed.reported hg hq (.inr hk)
  · next hk =>
    refine .pure ?_
    rw [List.append_nil]
    refine h.imp id fun hf => ⟨hf.1, ?_⟩
    rw [hmode hf.1] at hk ⊢
    exact hk

/-- An error in front of a line becomes part of its text. -/
instance : ReportsOwed first (lineText levels first) := by
  have hstep : ReportsOwed first (textStep levels first false) := by
    refine .peekKind (fun k => ?_)
      (inferInstanceAs (ReportsOwed first (node .error (advance first) >>= fun _ => pure _)))
    split <;> infer_instance
  have : ReportsOwed first (loop (textStep levels first) false) := .loop (fun _ => Rule.reads) hstep
  unfold lineText
  infer_instance

/-- The text of a line, or there is none, and no error either. -/
lemma makes_lineText : Makes Reported s (lineText levels first) fun found ts u =>
    found = true ∧ NodeOf .lineText ts ∨ found = false ∧ u.kindAt first ≠ .errorToken := by
  by_cases hk : s.kindAt first = .errorToken
  · exact .of_reported fun hg hq => ReportsOwed.reported hg hq (.inr hk)
  · unfold lineText
    have hloop : Makes Reported s.start (loop (textStep levels first) false) fun found ts u =>
        TextFound IsLinePart first found ts u :=
      .loop (.inr ⟨rfl, hk⟩) fun _ _ _ => makes_textStep levels first
    refine (Makes.nodeIf hloop ?_).mono ?_
    · rintro cs - - (⟨-, hpart⟩ | ⟨hf, -⟩)
      · simpa [Tree.hasParts] using IsLinePart.partsAmong_ne hpart
      · simp at hf
    · rintro found ts u (⟨rfl, hts⟩ | ⟨rfl, v, ⟨hf, -⟩ | ⟨-, hv⟩, rfl⟩)
      · exact .inl ⟨rfl, hts⟩
      · simp at hf
      · exact .inr ⟨rfl, hv⟩

end

/-! ### Conditions and hashtags -/

/-- The condition of a line is `once`, or an expression. -/
lemma makes_lineCondition (levels : Nat) : Makes Reported s (lineCondition levels) fun _ ts _ =>
    NodeOf .lineCondition ts := by
  have : Builds (Owes .expr) false (expr levels) := .of_makes (makes_expr levels)
  have hrest : Builds Reported false (expr levels >>= fun _ => commandEnd .expr) :=
    .seq (E := Owes .expr) inferInstance fun _ => inferInstance
  have hpart : Finds Reported (fun t => IsToken .onceKw t ∨ IsExpr t)
      (advance .text >>= fun _ => conditionRest levels) := by
    unfold conditionRest
    refine .behind fun _ s => .eat .command (by simp) (fun _ token ht => ?_) fun _ => ?_
    · rw [if_pos rfl]
      have hbuilds : Builds Reported false (eat .command .ifKw >>= fun b =>
          if b = true then expr levels >>= fun _ => commandEnd .expr else commandEnd .expr) :=
            inferInstance
      exact (hbuilds.makes _).mono fun _ _ _ _ => ⟨_, List.mem_cons_self, .inl ⟨token, ht, rfl⟩⟩
    · rw [if_neg (by simp)]
      have hfinds : Finds Reported IsExpr (expect .command .ifKw "expected `if`" >>= fun _ =>
          expr levels >>= fun _ => commandEnd .expr) := .behind fun _ => .before (finds_expr levels)
      exact (hfinds _).mono fun _ _ _ ⟨t, ht, hexpr⟩ => ⟨t, ht, .inr hexpr⟩
  unfold lineCondition
  refine Finds.inNode hpart ?_
  rintro cs - _ hc (⟨token, ht, rfl⟩ | ⟨k, ds, hk, rfl⟩)
  · simp [Tree.hasParts, Tree.hasToken_of_mem hc ht]
  · simp [Tree.hasParts, Tree.among?_isSome hc hk]

instance (levels : Nat) : Builds Reported false (lineCondition levels) :=
  .of_makes fun _ => makes_lineCondition levels

instance : ReportsOwed .hashtag (advance .text) :=
  ⟨fun s hg hq ho =>
    have htext : s.Owes .text := ho.imp_right Scanner.text_error_of_hashtag
    ReportsOwed.reported hg hq htext⟩

lemma makes_hashtag : Makes (Owes .hashtag) s hashtag fun _ ts _ => NodeOf .hashtag ts := by
  unfold hashtag
  refine Finds.inNode (.behind fun _ => .before (Finds.expect .hashtag (by simp) _)) ?_
  rintro cs - _ hc ⟨token, ht, rfl⟩
  exact Tree.hasToken_of_mem hc ht

instance : ReportsOwed .hashtag hashtag := by
  unfold hashtag
  infer_instance

instance : Builds (Owes .hashtag) false hashtag := .of_makes fun _ => makes_hashtag

instance : Builds (Owes .hashtag) false hashtags := by
  unfold hashtags
  infer_instance

instance : ReportsOwed .hashtag (endOfLine .text) := reportsOwed_endOfLine fun _ h => by
  simp [Scanner.text_error_of_hashtag h]

/-- What a hashtag at the end of a line lacks is reported there. -/
instance : Builds Reported false (hashtags >>= fun _ => endOfLine .text) :=
  .seq (E := Owes .hashtag) inferInstance fun _ => inferInstance

instance (levels : Nat) : Builds Reported false (lineRest levels) := by
  unfold lineRest
  dsimp only
  refine (Builds.follow fun b => ?_).2
  split
  · refine Builds.follow fun keyword => ?_
    split <;> exact ⟨inferInstance, inferInstance⟩
  · exact ⟨inferInstance, inferInstance⟩

/-- A line has its text, or its lack is reported. -/
lemma makes_line (levels : Nat) (first : Mode) : Makes Reported s (line levels first) fun _ ts _ =>
    NodeOf .lineStmt ts := by
  have hbody : Makes Reported s.start (lineText levels first >>= fun found =>
      if (!found) = true then error first "expected line text" >>= fun _ => lineRest levels
      else lineRest levels) fun _ ts _ => ∃ t ∈ ts, IsNode .lineText t := by
    refine .bind (E := Reported) (makes_lineText levels first) fun found ts u hfound => ?_
    rcases hfound with ⟨rfl, cs, rfl⟩ | ⟨rfl, hk⟩
    · rw [if_neg (by simp)]
      refine (Builds.any u).mono fun _ us _ _ => ?_
      exact ⟨.node .lineText cs, by simp, cs, rfl⟩
    · rw [if_pos (by simp)]
      exact .of_unexpected hk
  rw [line]
  refine .asNode hbody ?_
  rintro - cs - - ⟨_, hc, ds, rfl⟩
  exact Tree.nodeAmong?_isSome hc

end Parser

end DialogueScript
