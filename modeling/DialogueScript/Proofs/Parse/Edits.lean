import DialogueScript.Proofs.Parse.Splice

/-!
A text that is edited again and again, and the parse that follows it: each edit is made to the text
that the ones before it left, and each parse starts from the one before it.
-/

namespace DialogueScript

/-- Puts `insert` in the place of the bytes in `delete`. -/
structure Replacement where
  delete : Range
  insert : Text
deriving DecidableEq, Repr

namespace Replacement

def edit (r : Replacement) : Edit := .replace r.delete r.insert

/-- A replacement turns one text into another: its bounds are positions of the text in order, and
the new text is not longer than positions reach. -/
structure Turns (r : Replacement) (t t' : Text) : Prop where
  ordered : r.delete.start ≤ r.delete.stop
  replaced : Text.replace? t r.delete r.insert = some t'
  fits : Text.size t' ≤ Diagnostic.maxPosition

instance (r : Replacement) (t t' : Text) : Decidable (r.Turns t t') :=
  decidable_of_iff (r.delete.start ≤ r.delete.stop ∧ Text.replace? t r.delete r.insert = some t' ∧
    Text.size t' ≤ Diagnostic.maxPosition)
    ⟨fun ⟨h1, h2, h3⟩ => ⟨h1, h2, h3⟩, fun ⟨h1, h2, h3⟩ => ⟨h1, h2, h3⟩⟩

variable {r : Replacement} {t t' : Text}

/-- What stands around a replacement stays. -/
lemma Turns.split (h : r.Turns t t') : ∃ before deleted after, t = before ++ deleted ++ after ∧
    t' = before ++ r.insert ++ after ∧ r.delete = .ofSize (Text.size before) (Text.size deleted) ∧
    r.edit = Parse.editOf before deleted r.insert := by
  obtain ⟨before, deleted, after, h1, h2, h3⟩ := Parse.replace?_eq_some h.ordered h.replaced
  exact ⟨before, deleted, after, h1, h2, h3, by rw [edit, h3, Parse.editOf]⟩

end Replacement

/-- Replacements one after the other turn a text into another. -/
inductive Edited : Text → List Replacement → Text → Prop where
  | nil (t : Text) : Edited t [] t
  | cons {t t' u : Text} {r : Replacement} {rs : List Replacement} : r.Turns t t' → Edited t' rs u →
      Edited t (r :: rs) u

namespace Parse

/-- The text after some replacements and its parse, in which every step goes on from the parse of
the step before. The answer is `none` if a bound is no position of the text, or if parsing again
fails. -/
def follow? (p : Parse) (t : Text) : List Replacement → Option (Parse × Text)
  | [] => some (p, t)
  | r :: rs => do
    let t ← Text.replace? t r.delete r.insert
    let q ← p.reparse? r.edit t
    follow? q.parse t rs

lemma follow?_cons {p : Parse} {t t' : Text} {r : Replacement} {q : Reparsed} (h : r.Turns t t')
    (hq : p.reparse? r.edit t' = some q) (rs : List Replacement) :
    follow? p t (r :: rs) = follow? q.parse t' rs := by
  simp [follow?, h.replaced, hq]

lemma exists_of_follow?_cons {p : Parse} {t t' : Text} {r : Replacement} {rs : List Replacement}
    {answer : Parse × Text} (h : r.Turns t t') (hp : follow? p t (r :: rs) = some answer) :
    ∃ q, p.reparse? r.edit t' = some q ∧ follow? q.parse t' rs = some answer := by
  simpa only [follow?, Option.bind_eq_bind, h.replaced, Option.bind_some, Option.bind_eq_some_iff]
    using hp

/-- Replacements one after the other, each of which is detached in the parse of the text that it is
made to: it does not touch what the child in front of the edited node has looked at. -/
inductive Detached (config : Config) : Text → List Replacement → Text → Prop where
  | nil (t : Text) : Detached config t [] t
  | cons {t t' u : Text} {r : Replacement} {rs : List Replacement} : r.Turns t t' →
      (ofText config t).isDetached r.edit = true → Detached config t' rs u →
      Detached config t (r :: rs) u

/-- One step of a chain. -/
lemma reparse_of_turns {config : Config} {r : Replacement} {t t' : Text} (h : r.Turns t t')
    (hdetached : (ofText config t).isDetached r.edit = true) :
    ∃ q, (ofText config t).reparse? r.edit t' = some q ∧ q.parse = ofText config t' := by
  have hfits := h.fits
  obtain ⟨before, deleted, after, rfl, rfl, -, hedit⟩ := h.split
  rw [hedit] at hdetached ⊢
  exact Option.map_eq_some_iff.1
    (reparse_eq_of_detached config before deleted r.insert after hfits hdetached)

/-- **Parsing again after each of many edits** always gives the parse of the text as it is then,
with the same tree, diagnostics and checkpoints, as long as no edit touches the title line of a node
that an unclosed child ends at. -/
theorem follow?_eq_ofText {config : Config} {t u : Text} {rs : List Replacement}
    (h : Detached config t rs u) : follow? (ofText config t) t rs = some (ofText config u, u) := by
  induction h with
  | nil t => rfl
  | cons hturns hdetached _ ih =>
    obtain ⟨q, hq, hparse⟩ := reparse_of_turns hturns hdetached
    rw [follow?_cons hturns hq, hparse, ih]

/-- Behind an unclosed node, two edits of the body of the next one: the node is read again from its
checkpoint each time. -/
theorem follow?_eq_ofText_unclosed :
    follow? (ofText {} "title: A\n---\ntitle: B\n---\n===\n".toList)
      "title: A\n---\ntitle: B\n---\n===\n".toList
      [⟨⟨26, 26⟩, "-> é\n".toList⟩, ⟨⟨29, 31⟩, "$\n  <<if".toList⟩] =
    some (ofText {} "title: A\n---\ntitle: B\n---\n-> $\n  <<if\n===\n".toList,
      "title: A\n---\ntitle: B\n---\n-> $\n  <<if\n===\n".toList) :=
  have hfirst : Replacement.Turns ⟨⟨26, 26⟩, "-> é\n".toList⟩
      "title: A\n---\ntitle: B\n---\n===\n".toList
      "title: A\n---\ntitle: B\n---\n-> é\n===\n".toList := by decide +kernel
  follow?_eq_ofText
    (.cons hfirst (by decide +kernel) (.cons (by decide +kernel) (by decide +kernel) (.nil _)))

/-- The edit spoils the title line at which an unclosed node ends: the unclosed node is kept as it
was, where parsing the new text gives one node. -/
theorem follow?_ne_ofText :
    (follow? (ofText {} "title:A\n---\ntitle:B\n---\n===\n".toList)
      "title:A\n---\ntitle:B\n---\n===\n".toList [⟨⟨13, 13⟩, "x".toList⟩]).map
        (·.1.tree.children.length) =
      some 3 ∧
    (ofText {} "title:A\n---\ntxitle:B\n---\n===\n".toList).tree.children.length = 2 := by
  decide +kernel

end Parse

end DialogueScript
