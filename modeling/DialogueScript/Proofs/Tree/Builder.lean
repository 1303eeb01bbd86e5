import DialogueScript.Proofs.Text.Position
import DialogueScript.Proofs.Tree.Clean
import DialogueScript.Tree.Builder

/-!
Building is the reverse of taking apart. The invariant of a run is that the open nodes and the row
of finished trees, taken apart, are what was asked for so far.
-/

namespace DialogueScript

namespace Tree

mutual

/-- What a builder has to be asked for to build a tree. -/
def flatten : Tree → List BuildOp
  | leaf t => [.token t.leading t.kind (t.size - (t.leading.total + t.trailing.total)) t.trailing]
  | node k cs => .start k :: (flattenAll cs ++ [.finish])

def flattenAll : List Tree → List BuildOp
  | [] => []
  | c :: cs => flatten c ++ flattenAll cs

end

@[simp] lemma flattenAll_nil : flattenAll [] = [] := by rw [flattenAll]

@[simp] lemma flattenAll_append (cs ds : List Tree) :
    flattenAll (cs ++ ds) = flattenAll cs ++ flattenAll ds := by
  induction cs with
  | nil => simp
  | cons c cs ih => simp [flattenAll, ih]

@[simp] lemma flattenAll_singleton (c : Tree) : flattenAll [c] = flatten c := by
  simp [flattenAll]

end Tree

namespace BuildOp

/-! ### Counting -/

/-- How many nodes are open behind some calls, in front of which `n` are; none if a node is finished
while none is open. -/
def depth? : Nat → List BuildOp → Option Nat
  | n, [] => some n
  | n, start _ :: ops => depth? (n + 1) ops
  | n, token .. :: ops => depth? n ops
  | 0, finish :: _ => none
  | n + 1, finish :: ops => depth? n ops

/-- How many trees are finished outside of all nodes. -/
def roots : Nat → List BuildOp → Nat
  | _, [] => 0
  | n, start _ :: ops => roots (n + 1) ops
  | 0, token .. :: ops => roots 0 ops + 1
  | n + 1, token .. :: ops => roots (n + 1) ops
  | 0, finish :: ops => roots 0 ops
  | 1, finish :: ops => roots 0 ops + 1
  | n + 2, finish :: ops => roots (n + 1) ops

/-- The calls are a node from its start to its finish. -/
def OneNode (ops : List BuildOp) : Prop :=
  ∃ k inner, ops = start k :: (inner ++ [finish]) ∧ depth? 0 inner = some 0

/-- What is wrong with some calls; the first reason counts. -/
def fault? (ops : List BuildOp) : Option BuildError :=
  match depth? 0 ops with
  | none => some .unbalanced
  | some (_ + 1) => some .unclosed
  | some 0 =>
    if roots 0 ops ≠ 1 then some .rootCount
    else match ops with
      | start _ :: _ => none
      | _ => some .rootIsToken

/-- How many bytes a call takes off the text. -/
def size : BuildOp → Nat
  | start _ | finish => 0
  | token leading _ size trailing => leading.total + size + trailing.total

/-- The tokens stay inside the text and are cut where characters start. -/
def Fits (t : Text) : Nat → List BuildOp → Prop
  | _, [] => True
  | offset, start _ :: ops => Fits t offset ops
  | offset, token leading kind size trailing :: ops =>
    (Text.slice? t (.ofSize offset (token leading kind size trailing).size)).isSome ∧
      Fits t (offset + (token leading kind size trailing).size) ops
  | offset, finish :: ops => Fits t offset ops

instance decidableFits (t : Text) :
    (offset : Nat) → (ops : List BuildOp) → Decidable (Fits t offset ops)
  | _, [] => inferInstanceAs (Decidable True)
  | offset, start _ :: ops => decidableFits t offset ops
  | offset, token leading kind size trailing :: ops =>
    have := decidableFits t (offset + (token leading kind size trailing).size) ops
    inferInstanceAs (Decidable (_ ∧ _))
  | offset, finish :: ops => decidableFits t offset ops

lemma Fits.left {t : Text} {offset : Nat} {xs ys : List BuildOp} (h : Fits t offset (xs ++ ys)) :
    Fits t offset xs := by
  induction xs generalizing offset with
  | nil => trivial
  | cons op xs ih =>
    cases op with
    | start k => exact ih h
    | token leading kind size trailing => exact ⟨h.1, ih h.2⟩
    | finish => exact ih h

open Tree

mutual

/-- A whole tree leaves the count of open nodes as it is. -/
lemma depth?_flatten (n : Nat) (rest : List BuildOp) : (t : Tree) →
    depth? n (flatten t ++ rest) = depth? n rest
  | .leaf k => by rw [flatten]; rfl
  | .node k cs => by
    rw [flatten, List.cons_append, depth?, List.append_assoc, depth?_flattenAll]
    rfl

lemma depth?_flattenAll (n : Nat) (rest : List BuildOp) : (cs : List Tree) →
    depth? n (flattenAll cs ++ rest) = depth? n rest
  | [] => by simp
  | c :: cs => by rw [flattenAll, List.append_assoc, depth?_flatten, depth?_flattenAll]

end

/-- What stays within an open node makes no root. -/
lemma depth?_roots_append {n m : Nat} {xs : List BuildOp} (h : depth? n xs = some m)
    (ys : List BuildOp) :
    depth? (n + 1) (xs ++ ys) = depth? (m + 1) ys ∧
      roots (n + 1) (xs ++ ys) = roots (m + 1) ys := by
  induction xs generalizing n with
  | nil =>
    obtain rfl : n = m := by simpa [depth?] using h
    exact ⟨rfl, rfl⟩
  | cons op xs ih =>
    cases op with
    | start k => exact ih h
    | token leading kind size trailing => exact ih h
    | finish =>
      cases n with
      | zero => simp [depth?] at h
      | succ n => exact ih h

lemma depth?_flattenAll_zero (cs : List Tree) : depth? 0 (flattenAll cs) = some 0 := by
  simpa [depth?] using depth?_flattenAll 0 [] cs

lemma roots_flatten (t : Tree) (rest : List BuildOp) :
    roots 0 (flatten t ++ rest) = roots 0 rest + 1 := by
  cases t with
  | leaf k => rw [flatten]; rfl
  | node k cs =>
    rw [flatten, List.cons_append, roots, List.append_assoc,
      (depth?_roots_append (depth?_flattenAll_zero cs) _).2]
    rfl

lemma roots_flattenAll (cs : List Tree) : roots 0 (flattenAll cs) = cs.length := by
  induction cs with
  | nil => simp [roots]
  | cons c cs ih => rw [flattenAll, roots_flatten, ih, List.length_cons]

lemma OneNode.fault?_eq {ops : List BuildOp} (h : OneNode ops) : fault? ops = none := by
  obtain ⟨k, inner, rfl, hinner⟩ := h
  obtain ⟨hdepth, hroots⟩ := depth?_roots_append hinner [finish]
  rw [fault?, depth?, hdepth, roots, hroots]
  rfl

lemma oneNode_flatten {t : Tree} (h : t.isNode) : OneNode (flatten t) := by
  cases t with
  | leaf k => simp [isNode] at h
  | node k cs => exact ⟨k, flattenAll cs, by rw [flatten], depth?_flattenAll_zero cs⟩

end BuildOp

namespace Builder

open BuildOp Tree

/-! ### The invariant -/

/-- What was asked for, read off the open nodes and the row of trees. -/
def asked : List (Kind × Nat) → List Tree → List BuildOp
  | [], cs => flattenAll cs
  | (k, first) :: parents, cs =>
    asked parents (cs.take first) ++ .start k :: flattenAll (cs.drop first)

/-- The children of each open node begin within the row, in front of those of the nodes in it. -/
def Nested : List (Kind × Nat) → List Tree → Prop
  | [], _ => True
  | (_, first) :: parents, cs => first ≤ cs.length ∧ Nested parents (cs.take first)

/-- Where a run that began at `start` is behind the calls `ops`. If `start` is no position of the
text, no token has been taken. -/
structure Built (t : Text) (start : Nat) (ops : List BuildOp) (b : Builder) : Prop where
  source : b.text = t
  nested : Nested b.parents b.children
  asked : asked b.parents b.children = ops
  offset : b.offset = start + Text.size (textAll b.children)
  taken : (∃ before after, t = before ++ textAll b.children ++ after ∧ start = Text.size before) ∨
    (Text.cut? t start = none ∧ textAll b.children = [])

variable {t : Text} {start : Nat} {ops done : List BuildOp} {b b' : Builder}

/-- A tree at the end of the row is the last thing that was asked for. -/
lemma asked_concat {parents : List (Kind × Nat)} {cs : List Tree} (h : Nested parents cs)
    (t : Tree) :
    Nested parents (cs ++ [t]) ∧
      Builder.asked parents (cs ++ [t]) = Builder.asked parents cs ++ flatten t := by
  cases parents with
  | nil => exact ⟨trivial, by simp [Builder.asked]⟩
  | cons p parents =>
    obtain ⟨hle, hnested⟩ := h
    refine ⟨⟨by simp; omega, ?_⟩, ?_⟩
    · rwa [List.take_append_of_le_length hle]
    · simp [Builder.asked, List.take_append_of_le_length hle, List.drop_append_of_le_length hle]

lemma Built.startNode (h : Built t start ops b) (k : Kind) :
    Built t start (ops ++ [.start k]) (b.startNode k) where
  source := h.source
  nested := ⟨Nat.le_refl _, by simpa [Builder.startNode] using h.nested⟩
  asked := by simp [Builder.startNode, Builder.asked, h.asked]
  offset := h.offset
  taken := h.taken

/-- A token is a part of the text behind what has been taken so far. -/
lemma Built.token {leading trailing : TriviaSizes} {kind : Kind} {size : Nat}
    (h : Built t start ops b) (hb : b.token leading kind size trailing = .ok b') :
    Built t start (ops ++ [.token leading kind size trailing]) b' := by
  rw [Builder.token, h.source] at hb
  cases hslice : Text.slice? t (.ofSize b.offset (leading.total + size + trailing.total)) with
  | none => simp [hslice] at hb
  | some fullText =>
    obtain ⟨before, after, htext, hstart, hsize⟩ := Text.slice?_eq_some.mp hslice
    simp only [Range.ofSize, Range.size] at hstart hsize
    obtain rfl : _ = b' := by simpa [hslice] using hb
    have hflatten : flatten (.leaf { leading, kind, fullText, trailing }) =
        [.token leading kind size trailing] := by
      have hown : Text.size fullText - (leading.total + trailing.total) = size := by omega
      rw [flatten, Token.size, hown]
    have hconcat := asked_concat h.nested (.leaf { leading, kind, fullText, trailing })
    have hoffset := h.offset
    have hrow : textAll (b.children ++ [.leaf { leading, kind, fullText, trailing }]) =
        textAll b.children ++ fullText := by simp
    refine ⟨rfl, hconcat.1, by rw [hconcat.2, h.asked, hflatten], ?_, .inl ?_⟩
    · simp only [hrow, Text.size_append]
      omega
    · rw [hrow]
      rcases h.taken with ⟨first, rest, hfirst, hsame⟩ | ⟨hcut, hnone⟩
      · have hsplit : before ++ (fullText ++ after) = (first ++ textAll b.children) ++ rest := by
          rw [← hfirst, htext, List.append_assoc]
        obtain ⟨-, hrest⟩ := Text.append_inj_of_size hsplit (by rw [Text.size_append]; omega)
        exact ⟨first, after, by rw [hfirst, ← hrest]; simp, hsame⟩
      · -- a token has been cut out right behind `start`, so the text can be cut there
        rw [hnone, show Text.size [] = 0 from rfl] at hoffset
        rw [htext, List.append_assoc, show start = Text.size before by omega, Text.cut?_append]
          at hcut
        simp at hcut

lemma Built.finishNode (h : Built t start ops b) (hb : b.finishNode = .ok b') :
    Built t start (ops ++ [.finish]) b' := by
  rw [Builder.finishNode] at hb
  cases hparents : b.parents with
  | nil => simp [hparents] at hb
  | cons p parents =>
    obtain ⟨k, first⟩ := p
    obtain rfl : _ = b' := by simpa [hparents] using hb
    have hnested := h.nested
    have hasked := h.asked
    rw [hparents] at hnested hasked
    have hconcat := asked_concat hnested.2 (.node k (b.children.drop first))
    have hrow : textAll (b.children.take first ++ [.node k (b.children.drop first)]) =
        textAll b.children := by
      conv_rhs => rw [← List.take_append_drop first b.children]
      simp only [textAll_append, textAll_cons, text_node, textAll_nil, List.append_nil]
    refine ⟨h.source, hconcat.1, ?_, by rw [hrow]; exact h.offset, by rw [hrow]; exact h.taken⟩
    rw [hconcat.2, ← hasked, Builder.asked, flatten]
    simp

/-- One call adds itself to what was asked for. -/
lemma Built.apply {op : BuildOp} (h : Built t start ops b) (hb : b.apply op = .ok b') :
    Built t start (ops ++ [op]) b' := by
  cases op with
  | start k =>
    obtain rfl : b.startNode k = b' := by simpa [Builder.apply] using hb
    exact h.startNode k
  | token leading kind size trailing => exact h.token hb
  | finish => exact h.finishNode hb

/-- So does a whole run, call by call. -/
lemma Built.run (h : Built t start done b) (hb : b.run ops = .ok b') :
    Built t start (done ++ ops) b' := by
  induction ops generalizing b done with
  | nil =>
    obtain rfl : b = b' := by simpa [Builder.run] using hb
    simpa using h
  | cons op ops ih =>
    rw [Builder.run] at hb
    cases happly : b.apply op with
    | error e =>
      rw [happly] at hb
      cases hb
    | ok next =>
      rw [happly] at hb
      simpa using ih (h.apply happly) hb

lemma built_nil (t : Text) (start : Nat) : Built t start [] { text := t, offset := start } := by
  refine ⟨rfl, trivial, by simp [Builder.asked], by simp [Text.size], ?_⟩
  cases hcut : Text.cut? t start with
  | none => exact .inr ⟨rfl, by simp⟩
  | some p =>
    obtain ⟨ht, hstart⟩ := Text.cut?_eq_some.mp (show Text.cut? t start = some (p.1, p.2) from hcut)
    exact .inl ⟨p.1, p.2, by simpa using ht, hstart⟩

lemma built_of_run (hb : run { text := t, offset := start } ops = .ok b) : Built t start ops b :=
  (built_nil t start).run hb

/-! ### Whether a run fails -/

/-- Tokens that fit are taken, so a run can fail only where a node is finished and none is open. -/
lemma run_depth? (h : Fits b.text b.offset ops) :
    (depth? b.parents.length ops = none ∧ b.run ops = .error .unbalanced) ∨
      ∃ b', b.run ops = .ok b' ∧ depth? b.parents.length ops = some b'.parents.length := by
  induction ops generalizing b with
  | nil => exact .inr ⟨b, rfl, rfl⟩
  | cons op ops ih =>
    cases op with
    | start k => exact ih (b := b.startNode k) h
    | token leading kind size trailing =>
      obtain ⟨fullText, hslice⟩ := Option.isSome_iff_exists.mp h.1
      have htoken : ∃ next, b.token leading kind size trailing = .ok next ∧
          next.parents = b.parents ∧
          next.text = b.text ∧
            next.offset = b.offset + (leading.total + size + trailing.total) := by
        rw [Builder.token]
        simp only [BuildOp.size] at hslice
        rw [hslice]
        exact ⟨_, rfl, rfl, rfl, rfl⟩
      obtain ⟨next, hnext, hparents, htext, hoffset⟩ := htoken
      have hrest := ih (b := next) (by rw [htext, hoffset]; exact h.2)
      rw [Builder.run, Builder.apply, hnext, depth?, ← hparents]
      exact hrest
    | finish =>
      rw [Builder.run, Builder.apply, Builder.finishNode]
      cases hparents : b.parents with
      | nil => exact .inl ⟨rfl, rfl⟩
      | cons p parents => exact ih (b := { b with parents, children := _ }) h

/-- What a build comes to. -/
lemma build_cases (h : Fits t start ops) :
    (depth? 0 ops = none ∧ build t start ops = .error .unbalanced) ∨
    (∃ n, depth? 0 ops = some (n + 1) ∧ build t start ops = .error .unclosed) ∨
    (∃ cs, ops = flattenAll cs ∧ cs.length ≠ 1 ∧ build t start ops = .error .rootCount) ∨
    (∃ k : Token, ops = flatten (.leaf k) ∧ build t start ops = .error .rootIsToken) ∨
    ∃ tree, ops = flatten tree ∧ tree.isNode ∧ build t start ops = .ok tree := by
  rcases run_depth? (b := { text := t, offset := start }) h with ⟨hdepth, hrun⟩ | ⟨b, hrun, hdepth⟩
  · exact .inl ⟨hdepth, by rw [build, hrun]; rfl⟩
  have hasked := (built_of_run hrun).asked
  have hbuild : build t start ops = b.finish := by rw [build, hrun]; rfl
  rw [hbuild, Builder.finish]
  cases hparents : b.parents with
  | cons p parents => exact .inr (.inl ⟨parents.length, by simpa [hparents] using hdepth, rfl⟩)
  | nil =>
    rw [hparents, Builder.asked] at hasked
    refine .inr (.inr ?_)
    rcases hchildren : b.children with _ | ⟨c, _ | ⟨d, cs⟩⟩
    · exact .inl ⟨[], by rw [← hasked, hchildren], by simp, rfl⟩
    · rw [hchildren, flattenAll_singleton] at hasked
      cases c with
      | leaf k => exact .inr (.inl ⟨k, hasked.symm, rfl⟩)
      | node k cs => exact .inr (.inr ⟨.node k cs, hasked.symm, rfl, rfl⟩)
    · exact .inl ⟨c :: d :: cs, by rw [← hasked, hchildren], by simp, by cases c <;> rfl⟩

/-- What a build that succeeds has taken off the text. -/
lemma of_finish {tree : Tree}
    (hrun : run { text := t, offset := start } ops = .ok b) (hfinish : b.finish = .ok tree) :
    flatten tree = ops ∧ b.offset = start + Text.size tree.text ∧
      ((Text.cut? t start).isSome → Text.slice? t ⟨start, b.offset⟩ = some tree.text) ∧
      (Text.cut? t start = none → tree.text = []) := by
  have hbuilt := built_of_run hrun
  obtain ⟨hparents, hchildren⟩ : b.parents = [] ∧ b.children = [tree] := by
    rw [Builder.finish] at hfinish
    split at hfinish <;> simp_all
  have htext : textAll b.children = tree.text := by simp [hchildren]
  have hasked := hbuilt.asked
  have hoffset := hbuilt.offset
  rw [hparents, hchildren, Builder.asked, flattenAll_singleton] at hasked
  rw [htext] at hoffset
  refine ⟨hasked, hoffset, fun hcut => ?_, fun hcut => ?_⟩
  · rcases hbuilt.taken with ⟨before, after, ht, hstart⟩ | ⟨hnone, -⟩
    · refine Text.slice?_eq_some.mpr ⟨before, after, by rw [ht, htext], hstart, ?_⟩
      rw [hoffset, Range.size, Nat.add_sub_cancel_left]
    · simp [hnone] at hcut
  · rcases hbuilt.taken with ⟨before, after, ht, hstart⟩ | ⟨-, hnil⟩
    · rw [ht, hstart, List.append_assoc, Text.cut?_append] at hcut
      simp at hcut
    · rw [← htext, hnil]

/-- A build fails for what is wrong with its calls, or the calls are one node. -/
lemma build_eq (h : Fits t start ops) :
    (∃ e, build t start ops = .error e ∧ fault? ops = some e) ∨
      ∃ tree, build t start ops = .ok tree ∧ OneNode ops := by
  rcases build_cases h with ⟨hdepth, hbuild⟩ | ⟨n, hdepth, hbuild⟩ | ⟨cs, hops, hlength, hbuild⟩ |
    ⟨k, hops, hbuild⟩ | ⟨tree, hops, hnode, hbuild⟩
  · exact .inl ⟨_, hbuild, by simp [fault?, hdepth]⟩
  · exact .inl ⟨_, hbuild, by simp [fault?, hdepth]⟩
  · refine .inl ⟨_, hbuild, ?_⟩
    simp [fault?, hops, depth?_flattenAll_zero, roots_flattenAll, hlength]
  · refine .inl ⟨_, hbuild, ?_⟩
    rw [hops, flatten]
    rfl
  · exact .inr ⟨tree, hbuild, hops ▸ oneNode_flatten hnode⟩

/-- **Building is the reverse of taking apart.** Calls whose tokens fit the text build a tree just
if they are one node from its start to its finish. The tree taken apart gives the calls back, its
text is what stands between the start and the builder's last offset, and every size in it is that of
a text. Otherwise the build fails for the first thing that is wrong with the calls, and a node that
is finished while none is open makes it fail there. -/
theorem build_exact (t : Text) (start : Nat) (ops : List BuildOp) (h : Fits t start ops) :
    ((∃ tree, build t start ops = .ok tree) ↔ OneNode ops) ∧
    (∀ b tree, run { text := t, offset := start } ops = .ok b → b.finish = .ok tree →
      flatten tree = ops ∧
      ((Text.cut? t start).isSome → Text.slice? t ⟨start, b.offset⟩ = some tree.text) ∧
      (Text.cut? t start = none → b.offset = start ∧ tree.text = []) ∧
      ∀ c ∈ tree.subtrees, c.size = Text.size c.text) ∧
    (∀ e, build t start ops = .error e ↔ fault? ops = some e) ∧
    ∀ before after, ops = before ++ .finish :: after → depth? 0 before = some 0 →
      ∃ b, run { text := t, offset := start } before = .ok b ∧
        b.finishNode = .error .unbalanced := by
  refine ⟨⟨?_, fun hnode => ?_⟩, fun b tree hrun hfinish => ?_, fun e => ?_,
    fun before after hops hbefore => ?_⟩
  · rintro ⟨tree, htree⟩
    rcases build_eq h with ⟨e, hbuild, -⟩ | ⟨tree, -, hnode⟩
    · simp [hbuild] at htree
    · exact hnode
  · rcases build_eq h with ⟨e, -, hfault⟩ | ⟨tree, hbuild, -⟩
    · simp [hnode.fault?_eq] at hfault
    · exact ⟨tree, hbuild⟩
  · obtain ⟨hflatten, hoffset, hslice, hnil⟩ := of_finish hrun hfinish
    refine ⟨hflatten, hslice, fun hcut => ⟨?_, hnil hcut⟩, fun c _ => size_eq c⟩
    simpa [hnil hcut, Text.size] using hoffset
  · rcases build_eq h with ⟨e', hbuild, hfault⟩ | ⟨tree, hbuild, hnode⟩
    · simp [hbuild, hfault]
    · simp [hbuild, hnode.fault?_eq]
  · rcases run_depth? (b := { text := t, offset := start }) (Fits.left (hops ▸ h)) with
      ⟨hnone, -⟩ | ⟨b, hrun, hdepth⟩
    · simp [hbefore] at hnone
    · have hparents : b.parents = [] := by simpa [hbefore] using hdepth.symm
      exact ⟨b, hrun, by rw [Builder.finishNode, hparents]⟩

/-- A command with an expression in it, and two ways to leave its calls unfinished. -/
theorem build_exact_setStmt :
    let ops := [.start .setStmt, .token [] .commandStart 2 [],
      .token [] .setKw 3 [(.whitespace, 1)],
      .start .variableExpr, .token [] .dollar 1 [], .token [] .ident 1 [], .finish,
      .token [] .commandEnd 2 [], .finish]
    let t := "<<set $x>>".toList
    Fits t 0 ops ∧ (∃ tree, build t 0 ops = .ok tree) ∧
      Fits t 0 (.finish :: ops) ∧ build t 0 (.finish :: ops) = .error .unbalanced ∧
      Fits t 0 (ops.take 8) ∧ build t 0 (ops.take 8) = .error .unclosed := by
  intro ops t
  have hfits : Fits t 0 ops := by decide
  have hnode : OneNode ops := ⟨.setStmt, (ops.drop 1).take 7, by decide, by decide⟩
  exact ⟨hfits, (build_exact t 0 ops hfits).1.2 hnode,
    hfits, ((build_exact t 0 (.finish :: ops) hfits).2.2.1 _).2 rfl,
    by decide, ((build_exact t 0 (ops.take 8) (by decide)).2.2.1 _).2 rfl⟩

end Builder

end DialogueScript
