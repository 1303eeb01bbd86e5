import DialogueScript.Config
import DialogueScript.Proofs.Scanner.BlankLine
import DialogueScript.Proofs.Tree.Clean
import DialogueScript.Proofs.Tree.Unclosed
import Mathlib.Data.List.Chain

/-!
Groups of options and of line-group items. A blank line that ends a group is its last child; between
the items of a group and between two groups of one kind, blank lines stand as the settings ask for.
-/

namespace DialogueScript

namespace Tree

/-! ### Groups and items -/

/-- A node of the given kind. -/
def isNodeOf (k : Kind) : Tree → Bool
  | leaf _ => false
  | node k' _ => k' = k

def groupKind (lineGroup : Bool) : Kind := if lineGroup then .lineGroup else .shortcutOptionGroup

def itemKind (lineGroup : Bool) : Kind := if lineGroup then .lineGroupItem else .shortcutOption

def isGroup (t : Tree) : Bool := t.isNodeOf .lineGroup || t.isNodeOf .shortcutOptionGroup

/-- Whether an item has a block. -/
def hasBlock (t : Tree) : Bool := t.children.any (isNodeOf .block)

/-- Whether a group ends with a blank line. -/
def endsWithBlankLine (t : Tree) : Bool := t.children.getLast?.any (isTokenOf .blankLine)

/-- An item starts with its arrow, and no blank line stands in front of it. -/
def Adjoins (lineGroup : Bool) (item : Tree) : Prop :=
  ∃ arrow rest, item.children = .leaf arrow :: rest ∧
    arrow.kind = (if lineGroup then .lineGroupArrow else .shortcutArrow) ∧
    arrow.startsWithBlankLine = false

/-- The children of a node of kind `k` form the groups that the settings ask for. -/
structure Grouped (config : Config) (k : Kind) (cs : List Tree) : Prop where
  /-- Of two groups of one kind in a row, the first ends with a blank line. -/
  apart : cs.IsChain fun x y => ∀ lineGroup, x.isNodeOf (groupKind lineGroup) = true →
    y.isNodeOf (groupKind lineGroup) = true → x.endsWithBlankLine = true
  /-- A blank line ends a group, behind an item after which blank lines do so. -/
  blank : ∀ before token after, cs = before ++ .leaf token :: after → token.kind = .blankLine →
    after = [] ∧ ∃ lineGroup item, k = groupKind lineGroup ∧ before.getLast? = some item ∧
      item.isNodeOf (itemKind lineGroup) = true ∧ config.breaksAfter item.hasBlock lineGroup = true
  /-- Of two items in a row, the second has no blank line in front of it if blank lines end the
  group after the first. -/
  joined : ∀ lineGroup, k = groupKind lineGroup →
    (cs.filter (isNodeOf (itemKind lineGroup))).IsChain fun x y =>
      config.breaksAfter x.hasBlock lineGroup = true → y.Adjoins lineGroup

/-- The groups everywhere in a tree are those that the settings ask for. -/
def WellGrouped (config : Config) (t : Tree) : Prop :=
  ∀ k cs, node k cs ∈ t.subtrees → Grouped config k cs

/-! ### What the settings mean -/

section
variable {config : Config} {k : Kind} {cs : List Tree} (h : Grouped config k cs)
include h

/-- What a blank line ends, and what the settings say then. -/
lemma Grouped.of_blank {token : Token} (hmem : .leaf token ∈ cs) (hk : token.kind = .blankLine) :
    config.optionBreak ≠ .never ∧ (k = .lineGroup → config.breakLineGroups = true) ∧
      (config.optionBreak = .afterNestedBlock →
        ∃ before item, cs = before ++ [item, .leaf token] ∧ item.hasBlock = true) := by
  obtain ⟨before, after, rfl⟩ := List.append_of_mem hmem
  obtain ⟨rfl, lineGroup, item, hgroup, hlast, -, hbreaks⟩ := h.blank _ _ _ rfl hk
  obtain ⟨hnever, hsplit, hblock⟩ := Config.breaksAfter_iff.1 hbreaks
  refine ⟨hnever, fun hline => hsplit ?_, fun hnested => ?_⟩
  · cases lineGroup
    · simp [hgroup, groupKind] at hline
    · rfl
  · obtain ⟨items, rfl⟩ := List.getLast?_eq_some_iff.1 hlast
    exact ⟨items, item, by simp, hblock hnested⟩

/-- Where blank lines end a group behind every item, no item but the first has one in front. -/
lemma Grouped.adjoins {lineGroup : Bool} (hk : k = groupKind lineGroup)
    (hany : config.optionBreak = .afterAnyItem)
    (hsplit : lineGroup = true → config.breakLineGroups = true) :
    (cs.filter (isNodeOf (itemKind lineGroup))).IsChain fun _ y => y.Adjoins lineGroup :=
  (h.joined lineGroup hk).imp fun _ _ hy =>
    hy (Config.breaksAfter_iff.2 ⟨by simp [hany], hsplit, by simp [hany]⟩)

end

lemma isNodeOf_iff {k : Kind} {t : Tree} : t.isNodeOf k = true ↔ ∃ cs, t = node k cs := by
  cases t <;> simp [isNodeOf]

lemma isGroup_eq_false {t : Tree} (h : t.isGroup = false) (lineGroup : Bool) :
    t.isNodeOf (groupKind lineGroup) = false := by
  rw [isGroup, Bool.or_eq_false_iff] at h
  cases lineGroup
  · exact h.2
  · exact h.1

lemma isGroup_node {k : Kind} (h1 : k ≠ .lineGroup) (h2 : k ≠ .shortcutOptionGroup)
    (cs : List Tree) :
    (node k cs).isGroup = false := by
  simp [isGroup, isNodeOf, h1, h2]

section
variable {config : Config} {k : Kind} {cs ds : List Tree}

lemma wellGrouped_leaf (token : Token) : WellGrouped config (leaf token) := by
  intro k cs h
  simp [subtrees] at h

lemma wellGrouped_node (h : Grouped config k cs) (hcs : ∀ c ∈ cs, WellGrouped config c) :
    WellGrouped config (node k cs) := by
  intro k' cs' hmem
  rcases mem_subtrees_node.1 hmem with heq | ⟨d, hd, hmem⟩
  · obtain ⟨rfl, rfl⟩ := Tree.node.inj heq
    exact h
  · exact hcs d hd k' cs' hmem

/-! ### Rows of trees -/

/-- Trees that can stand in a row in a node that is no group. -/
structure Row (config : Config) (cs : List Tree) : Prop where
  grouped : ∀ c ∈ cs, WellGrouped config c
  noBlank : ∀ c ∈ cs, c.isTokenOf .blankLine = false
  apart : cs.IsChain fun x y => ∀ lineGroup, x.isNodeOf (groupKind lineGroup) = true →
    y.isNodeOf (groupKind lineGroup) = true → x.endsWithBlankLine = true

/-- A tree that can stand anywhere in such a row. -/
structure Single (config : Config) (t : Tree) : Prop where
  grouped : WellGrouped config t
  noBlank : t.isTokenOf .blankLine = false
  noGroup : t.isGroup = false

lemma row_nil : Row config [] := ⟨by simp, by simp, .nil⟩

lemma Row.grouped_node (h : Row config cs) (h1 : k ≠ .lineGroup) (h2 : k ≠ .shortcutOptionGroup) :
    Grouped config k cs where
  apart := h.apart
  blank before token after hcs hk := by
    have := h.noBlank (.leaf token) (by simp [hcs])
    simp [isTokenOf, hk] at this
  joined lineGroup hk := by
    cases lineGroup
    · exact absurd hk h2
    · exact absurd hk h1

lemma Row.node (h : Row config cs) (h1 : k ≠ .lineGroup) (h2 : k ≠ .shortcutOptionGroup) :
    Single config (.node k cs) :=
  ⟨wellGrouped_node (h.grouped_node h1 h2) h.grouped, rfl, isGroup_node h1 h2 cs⟩

/-- One more tree at the end of a row. -/
lemma Row.concat (h : Row config cs) {t : Tree} (ht : WellGrouped config t)
    (hb : t.isTokenOf .blankLine = false) (hlast : ∀ z, cs.getLast? = some z → ∀ lineGroup,
      z.isNodeOf (groupKind lineGroup) = true → t.isNodeOf (groupKind lineGroup) = true →
        z.endsWithBlankLine = true) : Row config (cs ++ [t]) where
  grouped c hc := by
    rcases List.mem_append.1 hc with hc | hc
    · exact h.grouped c hc
    · exact List.mem_singleton.1 hc ▸ ht
  noBlank c hc := by
    rcases List.mem_append.1 hc with hc | hc
    · exact h.noBlank c hc
    · exact List.mem_singleton.1 hc ▸ hb
  apart := by
    refine List.isChain_append.2 ⟨h.apart, by simp, fun z hz y hy => ?_⟩
    obtain rfl : t = y := by simpa using hy
    exact hlast z hz

lemma Row.append (h : Row config cs) (hds : ∀ d ∈ ds, Single config d) : Row config (cs ++ ds) := by
  induction ds generalizing cs with
  | nil => rwa [List.append_nil]
  | cons d ds ih =>
    obtain ⟨hd, hds⟩ := List.forall_mem_cons.1 hds
    have hconcat : Row config (cs ++ [d]) :=
      h.concat hd.grouped hd.noBlank fun z _ lineGroup _ hg => by
      rw [isGroup_eq_false hd.noGroup] at hg
      simp at hg
    have := ih hconcat hds
    rwa [List.append_assoc] at this

lemma row_of_singles (hcs : ∀ c ∈ cs, Single config c) : Row config cs := row_nil.append hcs

/-! ### A group -/

/-- The items of a group so far. -/
structure Items (config : Config) (lineGroup : Bool) (items : List Tree) : Prop where
  grouped : ∀ x ∈ items, x.isNodeOf (itemKind lineGroup) = true ∧ WellGrouped config x
  joined : items.IsChain fun x y => config.breaksAfter x.hasBlock lineGroup = true →
    y.Adjoins lineGroup

lemma Items.concat {lineGroup : Bool} {items : List Tree} (h : Items config lineGroup items)
    {t : Tree} (hk : t.isNodeOf (itemKind lineGroup) = true) (ht : WellGrouped config t)
    (hlast : ∀ z, items.getLast? = some z → config.breaksAfter z.hasBlock lineGroup = true →
      t.Adjoins lineGroup) : Items config lineGroup (items ++ [t]) where
  grouped x hx := by
    rcases List.mem_append.1 hx with hx | hx
    · exact h.grouped x hx
    · exact List.mem_singleton.1 hx ▸ ⟨hk, ht⟩
  joined := by
    refine List.isChain_append.2 ⟨h.joined, by simp, fun z hz y hy => ?_⟩
    obtain rfl : t = y := by simpa using hy
    exact hlast z hz

lemma isNodeOf_item {lineGroup : Bool} {t : Tree} (h : t.isNodeOf (itemKind lineGroup) = true) :
    (∀ token, t ≠ .leaf token) ∧ ∀ b, t.isNodeOf (groupKind b) = false := by
  obtain ⟨cs, rfl⟩ := isNodeOf_iff.1 h
  refine ⟨by simp, fun b => ?_⟩
  cases lineGroup <;> cases b <;> rfl

/-- A group without a blank line at its end. -/
lemma Items.group {lineGroup : Bool} {items : List Tree} (h : Items config lineGroup items) :
    WellGrouped config (.node (groupKind lineGroup) items) := by
  have hitem := fun x hx => isNodeOf_item (h.grouped x hx).1
  refine wellGrouped_node ⟨?_, ?_, ?_⟩ fun x hx => (h.grouped x hx).2
  · exact h.joined.imp_of_mem_imp fun x y hx hy _ b hb => by simp [(hitem x hx).2 b] at hb
  · rintro before token after rfl
    exact absurd rfl ((hitem (.leaf token) (by simp)).1 token)
  · intro b hb
    obtain rfl : lineGroup = b := by
      revert hb
      cases lineGroup <;> cases b <;> simp [groupKind]
    rw [List.filter_eq_self.2 fun x hx => (h.grouped x hx).1]
    exact h.joined

/-- A group that a blank line ends. -/
lemma Items.group_blank {lineGroup : Bool} {items : List Tree} (h : Items config lineGroup items)
    {last : Tree} (hlast : items.getLast? = some last)
    (hbreak : config.breaksAfter last.hasBlock lineGroup = true) {token : Token} :
    WellGrouped config (.node (groupKind lineGroup) (items ++ [.leaf token])) := by
  have hitem := fun x hx => isNodeOf_item (h.grouped x hx).1
  have hgroup := h.group
  have hself := hgroup _ _ (self_mem_subtrees _)
  refine wellGrouped_node ⟨?_, ?_, ?_⟩ fun x hx => ?_
  · exact List.isChain_append.2 ⟨hself.apart, by simp, fun x _ y hy => by
      obtain rfl : .leaf token = y := by simpa using hy
      simp [isNodeOf]⟩
  · intro before t after hcs hk
    rcases List.append_eq_append_iff.1 hcs with ⟨xs, hxs, h2⟩ | ⟨xs, hxs, h2⟩
    · rcases xs with _ | ⟨x, xs⟩
      · simp only [List.nil_append, List.cons.injEq] at h2
        obtain rfl : items = before := by simpa using hxs.symm
        exact ⟨h2.2.symm, lineGroup, last, rfl, hlast,
          (h.grouped last (List.mem_of_getLast? hlast)).1, hbreak⟩
      · simp at h2
    · rcases xs with _ | ⟨x, xs⟩
      · simp only [List.nil_append, List.cons.injEq] at h2
        obtain rfl : items = before := by simpa using hxs
        exact ⟨h2.2, lineGroup, last, rfl, hlast,
          (h.grouped last (List.mem_of_getLast? hlast)).1, hbreak⟩
      · simp only [List.cons_append, List.cons.injEq] at h2
        obtain ⟨rfl, -⟩ := h2
        exact absurd rfl ((hitem (.leaf t) (by simp [hxs])).1 t)
  · intro b hb
    rw [List.filter_append, List.filter_singleton]
    simpa [isNodeOf] using hself.joined b hb
  · rcases List.mem_append.1 hx with hx | hx
    · exact (h.grouped x hx).2
    · exact List.mem_singleton.1 hx ▸ wellGrouped_leaf token

end

end Tree

end DialogueScript
