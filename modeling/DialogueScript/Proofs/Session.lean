import DialogueScript.Proofs.Parse.Splice
import DialogueScript.Session

/-!
What holds of an open file whatever is done to it. The parse of a file may have been put together
from the parses of many earlier texts, and the settings may have changed and changed back in
between; its tree holds the current text all the same.
-/

namespace DialogueScript

/-! ### Diagnostics in the order of the text -/

/-- Some diagnostics in the order of the text, where those that start together keep their order. -/
structure Diagnostic.Arranged (found ds : List Diagnostic) : Prop where
  perm : ds.Perm found
  ascending : ds.Pairwise fun a b => a.range.start ≤ b.range.start
  stable : ∀ position,
    ds.filter (·.range.start = position) = found.filter (·.range.start = position)

lemma Diagnostic.arranged_sort (found : List Diagnostic) : Arranged found (sort found) := by
  have htrans : ∀ a b c : Diagnostic, decide (a.range.start ≤ b.range.start) = true →
      decide (b.range.start ≤ c.range.start) = true →
        decide (a.range.start ≤ c.range.start) = true := by
    intro a b c hab hbc
    simp only [decide_eq_true_eq] at hab hbc ⊢
    omega
  have htotal : ∀ a b : Diagnostic,
      (decide (a.range.start ≤ b.range.start) || decide (b.range.start ≤ a.range.start)) =
        true := by
    intro a b
    simp only [Bool.or_eq_true, decide_eq_true_eq]
    omega
  have hperm : (sort found).Perm found := List.mergeSort_perm _ _
  refine ⟨hperm, ?_, fun position => ?_⟩
  · exact (List.pairwise_mergeSort htrans htotal found).imp fun h => of_decide_eq_true h
  · -- what starts at one position is in order already, so sorting leaves it in its order
    have hsub : (found.filter (·.range.start = position)).Sublist (sort found) := by
      refine List.sublist_mergeSort htrans htotal ?_ List.filter_sublist
      refine List.pairwise_of_forall_mem_list fun a ha b hb => ?_
      simp only [List.mem_filter, decide_eq_true_eq] at ha hb ⊢
      omega
    have hsame := hsub.filter (·.range.start = position)
    simp only [List.filter_filter, Bool.and_self] at hsame
    exact (hsame.eq_of_length (hperm.filter _).length_eq.symm).symm

namespace File

/-! ### Operations -/

/-- What can be done to an open file. -/
inductive Operation where
  | setText (text : Text)
  | edit (start stop : Nat) (insert : Text)
  | setConfig (config : Config)
  | parse
  | check
deriving DecidableEq, Repr

/-- The file after an operation. Asking for the parse or for the diagnostics changes nothing, and
neither does an edit that is refused because its bounds are not two positions of the text in
order. -/
def perform (f : File) : Operation → File
  | .setText text => f.setText text
  | .edit start stop insert => ((Range.between? start stop).bind (f.edit? · insert)).getD f
  | .setConfig config => f.setConfig config
  | .parse => f
  | .check => f

def performAll (f : File) (operations : List Operation) : File := operations.foldl perform f

/-! ### What an operation does -/

/-- Only a pending edit can be the reason that a file has no parse. -/
lemma pending_of_parse?_none {f : File} (h : f.parse? = none) :
    ∃ p, f.pending = some p ∧ p.base.config = f.config ∧ p.base.reparse? p.edit f.text = none := by
  unfold parse? at h
  split at h
  · next p hp =>
    split at h
    · next hconfig => exact ⟨p, hp, hconfig, h⟩
    · simp at h
  · simp at h

/-- What an edit that succeeds leaves behind. -/
lemma of_edit? {f f' : File} {delete : Range} {insert : Text}
    (h : f.edit? delete insert = some f') :
    f'.config = f.config ∧ Text.replace? f.text delete insert = some f'.text ∧
      ∃ r, f.parse? = some r ∧ f'.pending = some ⟨r.parse, .replace delete insert⟩ := by
  simp only [edit?, Option.bind_eq_bind, Option.bind_eq_some_iff, Option.pure_def,
    Option.some.injEq] at h
  obtain ⟨base, hbase, t, ht, rfl⟩ := h
  exact ⟨rfl, ht, base, hbase, rfl⟩

lemma edit?_none {f : File} {delete : Range} {insert : Text} (h : f.edit? delete insert = none) :
    f.parse? = none ∨ Text.replace? f.text delete insert = none := by
  rcases hparse : f.parse? with _ | base
  · exact .inl rfl
  rcases ht : Text.replace? f.text delete insert with _ | t
  · exact .inr rfl
  · simp [edit?, hparse, ht] at h

/-- Where the pending edit starts from other settings, it is not used. -/
lemma parse?_setConfig {f : File} {c : Config} (h : ∀ p, f.pending = some p → p.base.config ≠ c) :
    (f.setConfig c).parse? = some ⟨.ofText c f.text, none⟩ := by
  rcases hp : f.pending with _ | p
  · simp [parse?, File.setConfig, hp]
  · simp [parse?, File.setConfig, hp, h p hp]

/-! ### The invariant -/

/-- A pending edit leads from the text of the parse it starts from to the text of the file. -/
structure Leads (p : PendingEdit) (t : Text) (delete : Range) (insert : Text) : Prop where
  holds : ∃ old, p.base.Holds old ∧ Text.replace? old delete insert = some t
  ordered : delete.start ≤ delete.stop
  edit : p.edit = .replace delete insert

/-- The pending edit of a file, if there is one, leads to its text. -/
def Sound (f : File) : Prop :=
  ∀ p, f.pending = some p → ∃ delete insert, Leads p f.text delete insert

lemma Sound.parse {f : File} (h : f.Sound) {r : Parse.Reparsed} (hr : f.parse? = some r) :
    r.parse.Holds f.text ∧ r.parse.config = f.config := by
  have hwhole : (Parse.ofText f.config f.text).Holds f.text ∧
      (Parse.ofText f.config f.text).config = f.config := ⟨Parse.holds_ofText _ _, rfl⟩
  unfold parse? at hr
  split at hr
  · next p hp =>
    split at hr
    · next hconfig =>
      obtain ⟨delete, insert, ⟨old, hold, ht⟩, hordered, hedit⟩ := h p hp
      rw [hedit] at hr
      obtain ⟨h1, h2⟩ := hold.reparse hordered ht hr
      exact ⟨h1, h2.trans hconfig⟩
    · obtain rfl := Option.some.inj hr
      exact hwhole
  · obtain rfl := Option.some.inj hr
    exact hwhole

/-- An edit that succeeds leaves the parse from before it and the edit behind. -/
lemma Sound.edit {f f' : File} (h : f.Sound) {delete : Range} (hd : delete.start ≤ delete.stop)
    {insert : Text} (hf : f.edit? delete insert = some f') : f'.Sound := by
  obtain ⟨-, ht, base, hbase, hpending⟩ := of_edit? hf
  intro p hp
  obtain rfl := Option.some.inj (hpending.symm.trans hp)
  exact ⟨delete, insert, ⟨f.text, (h.parse hbase).1, ht⟩, hd, rfl⟩

lemma Sound.perform {f : File} (h : f.Sound) (o : Operation) : (f.perform o).Sound := by
  cases o with
  | setText text => exact fun p hp => by simp [File.perform, setText] at hp
  | edit start stop insert =>
    rw [File.perform]
    rcases hf : (Range.between? start stop).bind (f.edit? · insert) with _ | f'
    · exact h
    · rw [Option.getD_some]
      obtain ⟨delete, hdelete, hf⟩ := Option.bind_eq_some_iff.1 hf
      have hd : delete.start ≤ delete.stop := by
        unfold Range.between? at hdelete
        split at hdelete
        · next hle =>
          obtain rfl := Option.some.inj hdelete
          exact hle
        · simp at hdelete
      exact h.edit hd hf
  | setConfig config => exact h
  | parse => exact h
  | check => exact h

lemma Sound.performAll {f : File} (h : f.Sound) (operations : List Operation) :
    (f.performAll operations).Sound := by
  induction operations generalizing f with
  | nil => exact h
  | cons o operations ih => exact ih (h.perform o)

/-- What the parse, the diagnostics and the pending edit of a file have to do with its text and its
settings. -/
structure Consistent (f : File) : Prop where
  text : ∀ r, f.parse? = some r → r.parse.tree.text = f.text
  config : ∀ r, f.parse? = some r → r.parse.config = f.config
  check : ∀ r, f.parse? = some r → ∃ ds, f.check? = some ds ∧
    Diagnostic.Arranged r.parse.diagnostics ds
  check_none : f.parse? = none → f.check? = none
  pending : ∀ p, f.pending = some p → ∃ insert, p.edit = .replace p.edit.delete insert ∧
    Text.replace? p.base.tree.text p.edit.delete insert = some f.text
  /-- A file has no parse only if its pending edit cannot be applied to the parse from before. -/
  parse_none : f.parse? = none →
    ∃ p, f.pending = some p ∧ p.base.config = f.config ∧ p.base.reparse? p.edit f.text = none
  /-- An edit replaces what it is to replace and remembers the parse. -/
  edit : ∀ delete insert f', f.edit? delete insert = some f' → f'.config = f.config ∧
    Text.replace? f.text delete insert = some f'.text ∧
    ∃ r, f.parse? = some r ∧ f'.pending = some ⟨r.parse, .replace delete insert⟩
  /-- An edit is refused only if there is no parse or nothing that it could replace. -/
  edit_none : ∀ delete insert, f.edit? delete insert = none →
    f.parse? = none ∨ Text.replace? f.text delete insert = none
  /-- A text that is set is parsed as a whole. -/
  setText : ∀ t, (f.setText t).parse? = some ⟨.ofText f.config t, none⟩
  /-- With other settings than those of the parse from before, the text is parsed as a whole. -/
  setConfig : ∀ c, (∀ p, f.pending = some p → p.base.config ≠ c) →
    (f.setConfig c).parse? = some ⟨.ofText c f.text, none⟩

/-- **Whatever is done to an open file**, a parse of it holds its text and was made with its
settings, its diagnostics are those of the parse in the order of the text, and a pending edit leads
from the text of its parse to the text of the file. An edit that is not refused replaces what it
names, and only a pending edit that cannot be applied leaves a file without a parse. -/
theorem consistent_performAll (path : String) (text : Text) (config : Config)
    (operations : List Operation) :
    Consistent (performAll { path, text, config } operations) := by
  have hsound : (performAll { path, text, config } operations).Sound :=
    Sound.performAll (fun p hp => by simp at hp) operations
  generalize performAll { path, text, config } operations = f at hsound
  refine ⟨fun r hr => (hsound.parse hr).1.tree_text, fun r hr => (hsound.parse hr).2,
    fun r hr => ?_, fun hnone => ?_, fun p hp => ?_, pending_of_parse?_none, fun _ _ _ => of_edit?,
    fun _ _ => edit?_none, fun _ => rfl, fun _ => parse?_setConfig⟩
  · exact ⟨_, by rw [check?, hr]; rfl, Diagnostic.arranged_sort _⟩
  · rw [check?, hnone]
    rfl
  · obtain ⟨delete, insert, ⟨old, hold, ht⟩, -, hedit⟩ := hsound p hp
    refine ⟨insert, by rw [hedit]; rfl, ?_⟩
    rw [hold.tree_text, hedit]
    exact ht

end File

end DialogueScript
