import DialogueScript.Proofs.Parse.Diagnostics
import DialogueScript.Proofs.Parse.Edits

/-!
The accounts of a parse that follows many edits. The checkpoints count what was reported before
them, and what is reported behind a checkpoint stands behind it. So when a node is exchanged, the
counts tell apart what is kept, what is dropped and what is moved, and nothing that is moved lies
before the edit.
-/

namespace DialogueScript

open DialogueScript.Parser ParserState

/-! ### Moving what lies behind an edit -/

/-- A diagnostic of the new text that was moved there. -/
structure Diagnostic.Moved (t : Text) (delta : Int) (d d' : Diagnostic) : Prop where
  shift : d.shift? delta = some d'
  placed : d'.Placed t
  start : (d'.range.start : Int) = d.range.start + delta
  stop : (d'.range.stop : Int) = d.range.stop + delta

/-- What lies behind an edit can be moved. -/
lemma Diagnostic.Placed.move {before deleted inserted after : Text} {d : Diagnostic}
    (h : d.Placed (before ++ deleted ++ after))
    (hbehind : Text.size before + Text.size deleted ≤ d.range.start)
    (hfits : Text.size (before ++ inserted ++ after) ≤ maxPosition) :
    ∃ d', d.Moved (before ++ inserted ++ after)
      (Parse.editOf before deleted inserted).delta d' := by
  obtain ⟨part, a, b, htext, hstart, hstop⟩ := h
  rw [List.append_assoc a] at htext
  obtain ⟨z, rfl, rfl⟩ := Text.split_of_size_le htext.symm (by rwa [Text.size_append, ← hstart])
  simp only [Text.size_append] at hstart hstop hfits
  refine ⟨_, Parse.shift?_eq_some (Text.size (before ++ inserted ++ z))
    (Text.size (before ++ inserted ++ z) + Text.size part) (by omega) ?_ ?_ ?_,
    ⟨part, before ++ inserted ++ z, b, by simp, rfl, rfl⟩, ?_, ?_⟩
  all_goals
    simp only [Parse.delta_editOf, Text.size_append]
    omega

/-- What lies before an edit stays where it is. -/
lemma Diagnostic.Placed.of_le {before a b : Text} {d : Diagnostic} (h : d.Placed (before ++ a))
    (hle : d.range.stop ≤ Text.size before) : d.Placed (before ++ b) := by
  obtain ⟨part, c, e, htext, hstart, hstop⟩ := h
  obtain ⟨z, rfl, -⟩ := Text.split_of_size_le htext (by rwa [Text.size_append, ← hstop])
  exact ⟨part, c, z ++ b, by simp, hstart, hstop⟩

namespace Parse

/-! ### The accounts of a parse -/

/-- The diagnostics of a parse stand in its text, and the checkpoints divide them among the
children. -/
structure Accounted (p : Parse) (t : Text) : Prop extends p.Holds t where
  placed : ∀ d ∈ p.diagnostics, d.Placed t
  counted : ∀ c ∈ p.checkpoints, c.diagnostics ≤ p.diagnostics.length
  ascending : p.checkpoints.Pairwise fun c c' => c.diagnostics ≤ c'.diagnostics
  behind : ∀ c ∈ p.checkpoints, ∀ d ∈ p.diagnostics.drop c.diagnostics, c.offset ≤ d.range.start

/-- A parse of a whole text keeps its accounts. -/
lemma accounted_ofText (config : Config) (t : Text) : (ofText config t).Accounted t := by
  have hholds := holds_ofText config t
  obtain ⟨trees, u, extra, h1, -, -, h3, h4, h5⟩ := ofText_eq config t
  have hready := ready_initial config t
  have hpoints : (ofText config t).checkpoints = u.checkpoints ++ [u.point] := by rw [h5, assembled]
  have hbare : (ofText config t).diagnostics.map Diagnostic.bare =
      (u.diagnostics ++ extra).map Diagnostic.bare := by
    rw [h5, assembled]
    exact Diagnostic.map_bare_located _ _
  -- what is reported behind a checkpoint, and the checkpoints behind it
  have hstate : ∀ i c, (ofText config t).checkpoints[i]? = some c →
      (c.diagnostics ≤ u.diagnostics.length ∧
        ∀ d ∈ (u.diagnostics ++ extra).drop c.diagnostics, c.offset ≤ d.range.start) ∧
      ∀ c' ∈ (ofText config t).checkpoints.drop i, c.diagnostics ≤ c'.diagnostics := by
    intro i c hc
    rw [hpoints] at hc ⊢
    obtain ⟨hi, s, h6, h7, rfl⟩ := state_at_checkpoint h1 hc
    have hpast := h6.past hready
    have hpast' := h7.past hpast.ready
    obtain ⟨htext, hoff⟩ := standing h6
    obtain ⟨es, h8, h9⟩ := h7.placed hpast.ready ⟨_, htext, hoff⟩ le_rfl
    obtain ⟨ps, hlen, hps, -⟩ := hpast.checkpoints
    obtain ⟨qs, -, hqs, hfrom⟩ := hpast'.checkpoints
    refine ⟨⟨hpast'.diagnostics.length_le, fun d hd => ?_⟩, fun c' hc' => ?_⟩
    · rw [h8, List.append_assoc, ParserState.point, List.drop_left] at hd
      rcases List.mem_append.1 hd with hd | hd
      · exact (h9 d hd).from_le
      · exact hpast'.isFrom.offset.trans (h4 d hd).from_le
    · have hlength : s.checkpoints.length = i := by
        rw [hps, List.length_append, hlen, List.length_take_of_le hi]
        simp [initial, begun]
      rw [hqs, List.append_assoc, ← hlength, List.drop_left] at hc'
      rcases List.mem_append.1 hc' with hc' | hc'
      · exact (hfrom c' hc').diagnostics
      · obtain rfl := List.mem_singleton.1 hc'
        exact hpast'.isFrom.diagnostics
  refine ⟨hholds, fun d hd => ?_, fun c hc => ?_, ?_, fun c hc d hd => ?_⟩
  · obtain ⟨d', hd', -, hrange⟩ := Diagnostic.exists_of_map_bare hbare hd
    rw [Diagnostic.Placed, hrange]
    rcases List.mem_append.1 hd' with hd' | hd'
    · exact h3 d' hd'
    · exact (h4 d' hd').placed
  · obtain ⟨i, hi⟩ := List.mem_iff_getElem?.1 hc
    have hlength := congrArg List.length hbare
    simp only [List.length_map, List.length_append] at hlength
    exact (hstate i c hi).1.1.trans (by omega)
  · refine List.pairwise_iff_getElem.2 fun i j hi hj hij => ?_
    refine (hstate i _ (List.getElem?_eq_getElem hi)).2 _ (List.mem_iff_getElem?.2 ⟨j - i, ?_⟩)
    rw [List.getElem?_drop, Nat.add_sub_cancel' hij.le, List.getElem?_eq_getElem hj]
  · obtain ⟨i, hi⟩ := List.mem_iff_getElem?.1 hc
    have hdrop : ((ofText config t).diagnostics.drop c.diagnostics).map Diagnostic.bare =
        ((u.diagnostics ++ extra).drop c.diagnostics).map Diagnostic.bare := by
      rw [List.map_drop, hbare, List.map_drop]
    obtain ⟨d', hd', -, hrange⟩ := Diagnostic.exists_of_map_bare hdrop hd
    rw [hrange]
    exact (hstate i c hi).1.2 d' hd'

/-! ### An edit between two checkpoints -/

/-- What is deleted lies strictly inside a child, in front of which and behind which there is a
checkpoint. -/
structure Inside (p : Parse) (before deleted : Text) (xs : List Tree) (tree : Tree) (ys : List Tree)
    (here next : Checkpoint) : Prop where
  children : p.tree.children = xs ++ tree :: ys
  here : p.checkpoints[xs.length]? = some here
  next : p.checkpoints[xs.length + 1]? = some next
  start_lt : Text.size (Tree.textAll xs) < Text.size before
  lt_stop : Text.size before + Text.size deleted < Text.size (Tree.textAll xs) + Text.size tree.text

/-- The counts that are subtracted from others are not larger, and what lies behind the child is
moved by the change in the length of the text and by nothing else. -/
structure Exact (p : Parse) (e : Edit) (t : Text) (index : Nat) (here next : Checkpoint) :
    Prop where
  here_le : here.diagnostics ≤ next.diagnostics
  next_le : next.diagnostics ≤ p.diagnostics.length
  checkpoints : ∀ c ∈ p.checkpoints.drop (index + 1),
    next.diagnostics ≤ c.diagnostics ∧ (e.move c.offset : Int) = c.offset + e.delta
  diagnostics : ∀ d ∈ p.diagnostics.drop next.diagnostics, ∃ d', d.Moved t e.delta d'

lemma exists_split_at {α : Type} {l : List α} {i : Nat} {a b : α} (ha : l[i]? = some a)
    (hb : l[i + 1]? = some b) : ∃ as bs, l = as ++ a :: b :: bs ∧ as.length = i := by
  obtain ⟨hi, rfl⟩ := List.getElem?_eq_some_iff.1 ha
  obtain ⟨hi', rfl⟩ := List.getElem?_eq_some_iff.1 hb
  refine ⟨l.take i, l.drop (i + 2), ?_, List.length_take_of_le hi.le⟩
  rw [List.getElem_cons_drop, List.getElem_cons_drop, List.take_append_drop]

lemma Holds.ascending {p : Parse} {t : Text} (h : p.Holds t) :
    p.checkpoints.Pairwise fun c c' => c.offset ≤ c'.offset := by
  refine List.pairwise_iff_getElem.2 fun i j hi hj hij => ?_
  obtain ⟨k, rfl⟩ := Nat.exists_eq_add_of_le hij.le
  rw [h.offset i _ (List.getElem?_eq_getElem hi), h.offset _ _ (List.getElem?_eq_getElem hj),
    List.take_add, Tree.textAll_append, Text.size_append]
  exact Nat.le_add_right _ _

namespace Inside

variable {p : Parse} {before deleted inserted after : Text} {xs ys : List Tree} {tree : Tree}
  {here next : Checkpoint} (h : p.Inside before deleted xs tree ys here next)
include h

lemma here_offset {t : Text} (hp : p.Holds t) : here.offset = Text.size (Tree.textAll xs) := by
  rw [hp.offset _ _ h.here, h.children, List.take_left]

lemma next_offset {t : Text} (hp : p.Holds t) :
    next.offset = Text.size (Tree.textAll xs) + Text.size tree.text := by
  rw [hp.offset _ _ h.next, h.children, List.take_length_add_append, List.take_succ_cons,
    List.take_zero, Tree.textAll_append, Tree.textAll_cons, Tree.textAll_nil, List.append_nil,
    Text.size_append]

/-- The checkpoints up to the one in front of the child. -/
lemma earlier {t : Text} (hp : p.Accounted t) {c : Checkpoint}
    (hc : c ∈ p.checkpoints.take (xs.length + 1)) :
    c.diagnostics ≤ here.diagnostics ∧ c.offset ≤ here.offset := by
  obtain ⟨as, bs, hsplit, hlen⟩ := exists_split_at h.here h.next
  have hcounts := hp.ascending
  have hoffsets := hp.toHolds.ascending
  rw [hsplit, List.pairwise_append] at hcounts hoffsets
  rw [hsplit, ← hlen, List.take_length_add_append, List.take_succ_cons, List.take_zero] at hc
  rcases List.mem_append.1 hc with hc | hc
  · exact ⟨hcounts.2.2 c hc here List.mem_cons_self, hoffsets.2.2 c hc here List.mem_cons_self⟩
  · obtain rfl := List.mem_singleton.1 hc
    exact ⟨le_rfl, le_rfl⟩

/-- **Nothing is held at a bound** when the child is exchanged. -/
lemma exact (hp : p.Accounted (before ++ deleted ++ after))
    (hfits : Text.size (before ++ inserted ++ after) ≤ Diagnostic.maxPosition) :
    p.Exact (editOf before deleted inserted) (before ++ inserted ++ after) xs.length here next := by
  have hoff := h.next_offset hp.toHolds
  have hlt := h.lt_stop
  obtain ⟨as, bs, hsplit, hlen⟩ := exists_split_at h.here h.next
  have hcounts := hp.ascending
  have hoffsets := hp.toHolds.ascending
  rw [hsplit, List.pairwise_append, List.pairwise_cons, List.pairwise_cons] at hcounts hoffsets
  obtain ⟨-, ⟨hhere, hnext, -⟩, -⟩ := hcounts
  obtain ⟨-, ⟨-, hnext', -⟩, -⟩ := hoffsets
  have hmem : next ∈ p.checkpoints := by simp [hsplit]
  refine ⟨hhere next List.mem_cons_self, hp.counted next hmem, fun c hc => ?_, fun d hd => ?_⟩
  · have hc : c = next ∨ c ∈ bs := by
      rwa [hsplit, ← hlen, List.drop_length_add_append, List.drop_succ_cons, List.drop_zero,
        List.mem_cons] at hc
    rw [delta_editOf]
    rcases hc with rfl | hc
    · exact ⟨le_rfl, move_editOf inserted (by omega)⟩
    · exact ⟨hnext c hc, move_editOf inserted (by have := hnext' c hc; omega)⟩
  · have hle := hp.behind next hmem d hd
    exact (hp.placed d (List.mem_of_mem_drop hd)).move (by omega) hfits

/-- What is found when the child is read again. -/
lemma found (hp : p.Holds (before ++ deleted ++ after)) {scanner : Scanner}
    (hresume : Scanner.resume? p.config (before ++ inserted ++ after) here.offset here.stack =
      some scanner) :
    ∀ d ∈ (item.after { scanner }).diagnostics,
      d.PlacedFrom (before ++ inserted ++ after) here.offset := by
  obtain ⟨scanner', hscanner, hgood, hsilent, htext, hat⟩ :=
    hp.resume inserted h.children h.start_lt h.here
  obtain rfl := Option.some.inj (hresume.symm.trans hscanner)
  have hs : ParserState.Good { scanner } := ⟨hgood, hsilent⟩
  have hle : here.offset ≤ scanner.offset := by rw [h.here_offset hp, hat]
  exact ((reading_item hs).placed hs ⟨_, htext, hat⟩ hle).all (by simp)

/-- **The exchange of the child keeps the accounts.** -/
lemma accounted (hp : p.Accounted (before ++ deleted ++ after))
    (hfits : Text.size (before ++ inserted ++ after) ≤ Diagnostic.maxPosition) {q : Parse}
    {node : Tree} {found : List Diagnostic} (hholds : q.Holds (before ++ inserted ++ after))
    (hfound : ∀ d ∈ found, d.PlacedFrom (before ++ inserted ++ after) here.offset)
    (hq : exchange? p (editOf before deleted inserted) (before ++ inserted ++ after) xs.length here
      next node found = some q) : q.Accounted (before ++ inserted ++ after) := by
  obtain ⟨hhere_le, hnext_le, hpoints, hmoved⟩ := h.exact hp hfits
  have hoff := h.here_offset hp.toHolds
  have hoff' := h.next_offset hp.toHolds
  have hstart := h.start_lt
  have hstop := h.lt_stop
  have hdelta := delta_editOf before deleted inserted
  obtain ⟨-, -, hqpoints, later, hlater, hlocated⟩ := exchange?_eq_some hq
  generalize editOf before deleted inserted = e at *
  -- what is moved, each next to what it was
  have hpairs : List.Forall₂ (fun d d' => d.Moved (before ++ inserted ++ after) e.delta d')
      (p.diagnostics.drop next.diagnostics) later := by
    refine ((List.forall₂_and_left _ _).2 ⟨hmoved, forall₂_of_mapM hlater⟩).imp ?_
    rintro d d' ⟨⟨d'', hd⟩, hshift⟩
    obtain rfl := Option.some.inj (hd.shift.symm.trans hshift)
    exact hd
  have hmem : ∀ k, ∀ d' ∈ later.drop k, ∃ d ∈ p.diagnostics.drop (next.diagnostics + k),
      d.Moved (before ++ inserted ++ after) e.delta d' := by
    intro k d' hd'
    have hdrop := List.forall₂_drop k hpairs
    rw [List.drop_drop] at hdrop
    exact exists_of_forall₂ hdrop hd'
  have hlength := hpairs.length_eq
  rw [List.length_drop] at hlength
  -- what is reported now, up to lines and columns
  have hbare := Diagnostic.map_bare_of_locateAll? hlocated
  have hcount : q.diagnostics.length = here.diagnostics + found.length + later.length := by
    have := congrArg List.length hbare
    simpa [List.length_take, min_eq_left (hhere_le.trans hnext_le), Nat.add_assoc] using this
  have hdrop : ∀ k, ∀ d ∈ q.diagnostics.drop k,
      ∃ d' ∈ (p.diagnostics.take here.diagnostics ++ found ++ later).drop k,
        d.range = d'.range := by
    intro k d hd
    have hk : (q.diagnostics.drop k).map Diagnostic.bare =
        ((p.diagnostics.take here.diagnostics ++ found ++ later).drop k).map Diagnostic.bare := by
      rw [List.map_drop, hbare, List.map_drop]
    obtain ⟨d', hd', -, hrange⟩ := Diagnostic.exists_of_map_bare hk hd
    exact ⟨d', hd', hrange⟩
  refine ⟨hholds, ?_, fun c hc => ?_, ?_, fun c hc d hd => ?_⟩
  · refine Diagnostic.placed_of_locateAll? hlocated fun d hd => ?_
    rcases List.mem_append.1 hd with hd | hd
    · rcases List.mem_append.1 hd with hd | hd
      · exact (hp.placed d (List.mem_of_mem_take hd)).ordered
      · exact (hfound d hd).placed.ordered
    · obtain ⟨_, -, hd⟩ := hmem 0 d hd
      exact hd.placed.ordered
  · rw [hqpoints] at hc
    rcases List.mem_append.1 hc with hc | hc
    · have := (h.earlier hp hc).1
      omega
    · obtain ⟨c₀, hc₀, rfl⟩ := List.mem_map.1 hc
      have := hp.counted c₀ (List.mem_of_mem_drop hc₀)
      have := (hpoints c₀ hc₀).1
      dsimp only
      omega
  · rw [hqpoints]
    have hcounts := hp.ascending
    rw [← List.take_append_drop (xs.length + 1) p.checkpoints] at hcounts
    obtain ⟨h1, h2, -⟩ := List.pairwise_append.1 hcounts
    refine List.pairwise_append.2 ⟨h1, List.pairwise_map.2 (h2.imp_of_mem ?_), ?_⟩
    · intro c c' hc hc' hle
      dsimp only
      omega
    · intro c hc c' hc'
      obtain ⟨c₀, hc₀, rfl⟩ := List.mem_map.1 hc'
      have := (h.earlier hp hc).1
      have := (hpoints c₀ hc₀).1
      dsimp only
      omega
  · obtain ⟨d', hd', hrange⟩ := hdrop _ d hd
    rw [hrange]
    rw [hqpoints] at hc
    rcases List.mem_append.1 hc with hc | hc
    · obtain ⟨hcount_le, hoff_le⟩ := h.earlier hp hc
      rw [List.append_assoc, List.drop_append_of_le_length (by
        rw [List.length_take_of_le (by omega)]; exact hcount_le)] at hd'
      rcases List.mem_append.1 hd' with hd' | hd'
      · rw [List.drop_take] at hd'
        exact hp.behind c (List.mem_of_mem_take hc) d' (List.mem_of_mem_take hd')
      · rcases List.mem_append.1 hd' with hd' | hd'
        · exact hoff_le.trans (hfound d' hd').from_le
        · obtain ⟨d₀, hd₀, hmove⟩ := hmem 0 d' hd'
          have := hp.behind next (List.mem_of_getElem? h.next) d₀ hd₀
          have := hmove.start
          omega
    · obtain ⟨c₀, hc₀, rfl⟩ := List.mem_map.1 hc
      obtain ⟨hcount_le, hoff_eq⟩ := hpoints c₀ hc₀
      dsimp only at hd' ⊢
      have hk : c₀.diagnostics - (next.diagnostics - here.diagnostics) + found.length =
          (p.diagnostics.take here.diagnostics ++ found).length +
            (c₀.diagnostics - next.diagnostics) := by
        rw [List.length_append, List.length_take_of_le (by omega)]
        omega
      rw [hk, List.drop_length_add_append] at hd'
      obtain ⟨d₀, hd₀, hmove⟩ := hmem _ d' hd'
      rw [Nat.add_sub_cancel' hcount_le] at hd₀
      have := hp.behind c₀ (List.mem_of_mem_drop hc₀) d₀ hd₀
      have := hmove.start
      omega

/-- The exchange succeeds if all that is kept stands in the new text. -/
lemma exists_exchange? (hp : p.Accounted (before ++ deleted ++ after))
    (hfits : Text.size (before ++ inserted ++ after) ≤ Diagnostic.maxPosition) (node : Tree)
    {found : List Diagnostic}
    (hfound : ∀ d ∈ found, d.PlacedFrom (before ++ inserted ++ after) here.offset)
    (hkept : ∀ d ∈ p.diagnostics.take here.diagnostics, d.Placed (before ++ inserted ++ after)) :
    ∃ q, exchange? p (editOf before deleted inserted) (before ++ inserted ++ after)
      xs.length here next node found = some q := by
  have hmoved := (h.exact hp hfits).diagnostics
  obtain ⟨later, hlater⟩ := exists_mapM fun d hd => (hmoved d hd).imp fun _ hd' => hd'.shift
  have hall : ∀ d ∈ p.diagnostics.take here.diagnostics ++ found ++ later,
      d.Placed (before ++ inserted ++ after) := by
    refine List.forall_mem_append.2
      ⟨List.forall_mem_append.2 ⟨hkept, fun d hd => (hfound d hd).placed⟩, ?_⟩
    intro d' hd'
    obtain ⟨d, hd, hshift⟩ := exists_of_forall₂ (forall₂_of_mapM hlater) hd'
    obtain ⟨d'', hd''⟩ := hmoved d hd
    obtain rfl := Option.some.inj (hd''.shift.symm.trans hshift)
    exact hd''.placed
  obtain ⟨ls, hls, -⟩ := Diagnostic.locateAll?_of_placed hall
  have hreplace :
      p.tree.replaceChild? xs.length node = some (.node .sourceFile (xs ++ node :: ys)) := by
    rw [hp.root, h.children]
    simp [Tree.replaceChild?]
  simp only [exchange?, hlater, hls, hreplace, Option.bind_eq_bind, Option.bind_some]
  exact ⟨_, rfl⟩

end Inside

/-- The child that an edit lies in, if there are checkpoints around it. -/
lemma inside_of_editedNode? {p : Parse} {before deleted inserted : Text} {index : Nat}
    {range : Range}
    (h : editedNode? (editOf before deleted inserted) 0 0 p.tree.children = some (index, range))
    {here next : Checkpoint} (hhere : p.checkpoints[index]? = some here)
    (hnext : p.checkpoints[index + 1]? = some next) :
    ∃ xs tree ys, index = xs.length ∧ p.Inside before deleted xs tree ys here next := by
  obtain ⟨xs, tree, ys, hcs, rfl, -, rfl, hstart, hstop⟩ := editedNode?_eq_some h
  rw [Nat.zero_add] at hhere hnext
  simp only [Range.ofSize, Nat.zero_add, Tree.sizeAll_eq, Tree.size_eq, editOf, Edit.replace]
    at hstart hstop
  exact ⟨xs, tree, ys, Nat.zero_add _, hcs, hhere, hnext, hstart, hstop⟩

/-! ### A chain of edits -/

/-- A diagnostic from before the node that an edit lies in reaches over the start of the edit, and
it is no part of the new text. -/
def Overrun (p : Parse) (e : Edit) (t : Text) : Prop :=
  ∃ index range here d, editedNode? e 0 0 p.tree.children = some (index, range) ∧
    p.checkpoints[index]? = some here ∧ d ∈ p.diagnostics.take here.diagnostics ∧
    e.delete.start < d.range.stop ∧ ¬ d.Placed t

section

variable {p : Parse} {t t' : Text} {r : Replacement} (h : p.Accounted t) (ht : r.Turns t t')
include h ht

lemma Accounted.exact {index : Nat} {range : Range} {here next : Checkpoint}
    (hedit : editedNode? r.edit 0 0 p.tree.children = some (index, range))
    (hhere : p.checkpoints[index]? = some here) (hnext : p.checkpoints[index + 1]? = some next) :
    p.Exact r.edit t' index here next := by
  have hfits := ht.fits
  obtain ⟨before, deleted, after, rfl, rfl, -, heq⟩ := ht.split
  rw [heq] at hedit ⊢
  obtain ⟨xs, tree, ys, rfl, hinside⟩ := inside_of_editedNode? hedit hhere hnext
  exact hinside.exact h hfits

/-- **Parsing again keeps the accounts.** -/
lemma Accounted.reparse {q : Reparsed} (hq : p.reparse? r.edit t' = some q) :
    q.parse.Accounted t' := by
  have hholds := (h.toHolds.reparse ht.ordered ht.replaced hq).1
  have hfits := ht.fits
  obtain ⟨before, deleted, after, rfl, rfl, -, heq⟩ := ht.split
  rw [heq] at hq
  rcases reparse?_eq_some hq with hwhole | ⟨index, range, hedit, hchild⟩
  · rw [hwhole]
    exact accounted_ofText _ _
  · obtain ⟨here, next, scanner, cs, hhere, hnext, hresume, -, -, hexchange⟩ :=
      reparseChild_eq_some hchild
    obtain ⟨xs, tree, ys, rfl, hinside⟩ := inside_of_editedNode? hedit hhere hnext
    exact hinside.accounted h hfits hholds (hinside.found h.toHolds hresume) hexchange

/-- **Parsing again fails only** where a diagnostic from before the edited node has lost its
place. -/
lemma Accounted.overrun (hnone : p.reparse? r.edit t' = none) : p.Overrun r.edit t' := by
  have hfits := ht.fits
  obtain ⟨before, deleted, after, rfl, rfl, -, heq⟩ := ht.split
  rw [heq] at hnone ⊢
  obtain ⟨index, range, hedit, hchild⟩ := reparse?_eq_none hnone
  obtain ⟨here, next, hhere, hnext, hcases⟩ := reparseChild_cases hchild
  obtain ⟨xs, tree, ys, rfl, hinside⟩ := inside_of_editedNode? hedit hhere hnext
  obtain ⟨scanner, hresume, -⟩ :=
    h.toHolds.resume r.insert hinside.children hinside.start_lt hhere
  obtain ⟨d, hd, hlost⟩ : ∃ d ∈ p.diagnostics.take here.diagnostics,
      ¬ d.Placed (before ++ r.insert ++ after) := by
    by_contra! hkept
    rcases hcases with ⟨hrefused, -⟩ | ⟨scanner', cs, hresume', -, -, hexchange⟩
    · exact Option.some_ne_none _ (hresume.symm.trans hrefused)
    · obtain ⟨q, hq⟩ := hinside.exists_exchange? h hfits (.node .dialogueNode cs)
        (hinside.found h.toHolds hresume') hkept
      rw [hq] at hexchange
      simp at hexchange
  refine ⟨_, range, here, d, hedit, hhere, hd, ?_, hlost⟩
  by_contra! hle
  rw [List.append_assoc] at h hlost
  exact hlost ((h.placed d (List.mem_of_mem_take hd)).of_le hle)

end

/-- **A chain of edits keeps the accounts.** -/
lemma Accounted.follow {p q : Parse} {t u u' : Text} {rs : List Replacement} (h : p.Accounted t)
    (hrs : Edited t rs u) (hq : follow? p t rs = some (q, u')) : q.Accounted u := by
  induction hrs generalizing p with
  | nil t =>
    obtain ⟨rfl, -⟩ := by simpa [follow?] using hq
    exact h
  | cons hturns _ ih =>
    obtain ⟨q', hq', hq⟩ := exists_of_follow?_cons hturns hq
    exact ih (h.reparse hturns hq') hq

/-- **The diagnostics of a text that was edited again and again** are parts of the text, as long as
every step gave a parse. In the next step, no count is subtracted from a smaller one and nothing is
moved by more or less than the change in length, and the step gives no parse only if a diagnostic
from before the edited node reaches over the start of the edit. -/
theorem diagnostics_of_edits {config : Config} {t u : Text} {rs : List Replacement} {p : Parse}
    (hrs : Edited t rs u) (hp : follow? (ofText config t) t rs = some (p, u)) :
    (∀ d ∈ p.diagnostics, d.range.start ≤ d.range.stop ∧ d.range.stop ≤ Text.size u ∧
      (Text.cut? u d.range.start).isSome = true ∧ (Text.cut? u d.range.stop).isSome = true) ∧
    ∀ (r : Replacement) (u' : Text), r.Turns u u' →
      (∀ index range here next, editedNode? r.edit 0 0 p.tree.children = some (index, range) →
        p.checkpoints[index]? = some here → p.checkpoints[index + 1]? = some next →
        p.Exact r.edit u' index here next) ∧
      (p.reparse? r.edit u' = none → p.Overrun r.edit u') := by
  have haccounted := (accounted_ofText config t).follow hrs hp
  refine ⟨fun d hd => ?_, fun r u' ht => ⟨fun index range here next => haccounted.exact ht,
    haccounted.overrun ht⟩⟩
  obtain ⟨part, hcovers⟩ := haccounted.placed d hd
  exact hcovers.ends

/-- A line is put into a node behind an unclosed one. What is reported of the unclosed one stands at
the next title line, so only an edit of that line can make it lose its place. -/
theorem diagnostics_of_edits_unclosed :
    (∀ d ∈ (ofText {} "title: A\n---\ntitle: B\n---\né\n===\n".toList).diagnostics,
      d.range.stop ≤ 33) ∧
    ∀ (r : Replacement) (u : Text), r.Turns "title: A\n---\ntitle: B\n---\né\n===\n".toList u →
      (ofText {} "title: A\n---\ntitle: B\n---\né\n===\n".toList).reparse? r.edit u = none →
      (ofText {} "title: A\n---\ntitle: B\n---\né\n===\n".toList).Overrun r.edit u := by
  have hturns : Replacement.Turns ⟨⟨26, 26⟩, "é\n".toList⟩
      "title: A\n---\ntitle: B\n---\n===\n".toList
      "title: A\n---\ntitle: B\n---\né\n===\n".toList := by decide +kernel
  obtain ⟨q, hq, hparse⟩ := @reparse_of_turns {} _ _ _ hturns (by decide +kernel)
  have hfollow := follow?_cons hturns hq []
  rw [hparse, follow?] at hfollow
  obtain ⟨hplaced, hlater⟩ := diagnostics_of_edits (.cons hturns (.nil _)) hfollow
  exact ⟨fun d hd => (hplaced d hd).2.1, fun r u ht => (hlater r u ht).2⟩

/-- The report of the missing end stands at the old title, and ends inside a character of the new
one. -/
theorem follow?_eq_none :
    (follow? (ofText {} "title:A\n---\ntitle:B\n---\n===\n".toList)
      "title:A\n---\ntitle:B\n---\n===\n".toList [⟨⟨13, 17⟩, "€€".toList⟩]).isNone = true ∧
    (Text.replace? "title:A\n---\ntitle:B\n---\n===\n".toList ⟨13, 17⟩ "€€".toList).isSome =
      true := by
  decide +kernel

end Parse

end DialogueScript
