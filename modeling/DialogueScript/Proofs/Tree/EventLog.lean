import DialogueScript.Proofs.Tree.Builder
import DialogueScript.Proofs.Tree.Located
import DialogueScript.Proofs.Tree.Plan

/-!
The tree that a record stands for is the one that was meant. Events that are closed, in that no link
leads out of them, can be read on their own, wherever they stand. A finished node is closed, but one
that is put around it changes its events: what is known of a node that may still be enclosed is
where its outermost start is recorded, and what would be read if that start had a link.
-/

namespace DialogueScript

namespace Event

open Tree

/-! ### Closed events -/

/-- The events are read as the given calls, whatever is recorded behind them. -/
def Closed (es : List Event) (ops : List BuildOp) : Prop :=
  ∀ rest, calls (es ++ rest) = (calls rest).map (ops ++ ·)

/-- The events are read as some trees in a row. -/
def Spells (es : List Event) (ts : List Tree) : Prop := Closed es (flattenAll ts)

lemma Closed.append {es fs : List Event} {ops ops' : List BuildOp} (h : Closed es ops)
    (h' : Closed fs ops') : Closed (es ++ fs) (ops ++ ops') := by
  intro rest
  rw [List.append_assoc, h, h', Option.map_map]
  congr 1
  funext r
  simp

lemma closed_nil : Closed [] [] := fun rest => by simp

lemma closed_finish : Closed [finish] [.finish] := fun rest => by
  simp [calls]

lemma closed_blank : Closed [blank] [] := fun rest => by
  simp [blank, calls]

lemma spells_nil : Spells [] [] := by simpa [Spells] using closed_nil

lemma Spells.append {es fs : List Event} {ts us : List Tree} (h : Spells es ts)
    (h' : Spells fs us) :
    Spells (es ++ fs) (ts ++ us) := by
  simpa [Spells] using Closed.append h h'

lemma spells_blank : Spells [blank] [] := by simpa [Spells] using closed_blank

lemma spells_token (t : Token) : Spells [ofToken t] [.leaf t] := fun rest => by
  simp [ofToken, calls, flatten, Token.range, Range.ofSize, Range.size]

/-- Behind other events, a link that leads past them finds what it would find without them. -/
lemma follow_append {k : Kind} (hk : k ≠ .tombstone) (forward? : Option Nat)
    (es rest : List Event) :
    follow (es ++ start k forward? :: rest) (some (es.length + 1)) =
      (follow rest forward?).map fun p => (k :: p.1, es ++ blank :: p.2) := by
  induction es with
  | nil => 
    cases h : follow rest forward? <;> simp [follow, h, hk]
  | cons e es ih =>
    rw [List.cons_append, List.length_cons, follow, ih]
    cases follow rest forward? <;> simp

/-! ### Nodes in nodes -/

/-- The events of a finished node, with others behind them, if the start of its outermost part links
to what is recorded next. -/
def linked (init : List Event) (k : Kind) (content between : List Event) : List Event :=
  init ++ start k (some (content.length + 2 + between.length)) :: (content ++ finish :: between)

/-- A finished node, `t`, and the nodes that it was put around. In front of its start stands `init`,
and `content` is what is recorded of it behind its start. -/
inductive Around : List Event → Kind → List Event → Tree → Prop where
  | base {k : Kind} {content : List Event} {ts : List Tree} (hk : k ≠ .tombstone)
    (hcontent : Spells content ts) : Around [] k content (.node k ts)
  /-- A node around another, of which the events `between` were recorded before its start. -/
  | step {init content between content' : List Event} {k k' : Kind} {t : Tree} {ts us : List Tree}
    (h : Around init k content t) (hbetween : Spells between ts) (hk : k' ≠ .tombstone)
    (hcontent : Spells content' us) :
    Around (linked init k content between) k' content' (.node k' (t :: (ts ++ us)))

/-- What is read of a node if its start has a link: the nodes that are found along it start first,
then all nodes around each other, and what is left of the events behind is read as usual. -/
lemma Around.calls_eq {init content : List Event} {k : Kind} {t : Tree}
    (h : Around init k content t) :
    ∃ kinds ops us, Spells content us ∧
      kinds.reverse.map .start ++ ops ++ flattenAll us ++ [.finish] = flatten t ∧
      ∀ forward? tail ks rest, follow tail forward? = some (ks, rest) →
        calls (init ++ start k forward? :: tail) =
          (calls rest).map ((kinds ++ ks).reverse.map .start ++ ops ++ ·) := by
  induction h with
  | @base k content ts hk hcontent =>
    refine ⟨[k], [], ts, hcontent, by simp [flatten], fun forward? tail ks rest hfollow => ?_⟩
    rw [List.nil_append, calls, if_neg hk]
    split
    · next hnone => simp [hnone] at hfollow
    · next kinds events hsome =>
      obtain ⟨rfl, rfl⟩ : kinds = ks ∧ events = rest := by simpa [hsome] using hfollow
      simp
  | @step init content between content' k k' t ts us h hbetween hk hcontent ih =>
    obtain ⟨kinds, ops, vs, hvs, hflatten, hcalls⟩ := ih
    refine ⟨kinds ++ [k'], ops ++ flattenAll vs ++ [.finish] ++ flattenAll ts, us, hcontent, ?_,
      fun forward? tail ks rest hfollow => ?_⟩
    · simp [flatten, ← hflatten, flattenAll]
    · have hlink : follow (content ++ finish :: (between ++ start k' forward? :: tail))
          (some (content.length + 2 + between.length)) =
            some (k' :: ks, content ++ finish :: (between ++ blank :: rest)) := by
        have := follow_append hk forward? (content ++ finish :: between) tail
        rw [hfollow] at this
        simpa [Nat.add_assoc, Nat.add_comm, Nat.add_left_comm] using this
      have hread := hcalls _ _ _ _ hlink
      have hclosed : Closed (content ++ [finish] ++ between ++ [blank])
          (flattenAll vs ++ [.finish] ++ flattenAll ts ++ []) :=
        Closed.append (Closed.append (Closed.append hvs closed_finish) hbetween) closed_blank
      have hrest := hclosed rest
      simp only [linked, List.append_assoc, List.cons_append, List.nil_append] at hread hrest ⊢
      rw [hread, hrest, Option.map_map]
      congr 1

/-- A finished node around which no other was put is read as its tree. -/
lemma Around.spells {init content : List Event} {k : Kind} {t : Tree}
    (h : Around init k content t) :
    Spells (init ++ start k none :: (content ++ [finish])) [t] := by
  intro rest
  obtain ⟨kinds, ops, us, hus, hflatten, hcalls⟩ := h.calls_eq
  have hread := hcalls none (content ++ [finish] ++ rest) [] _ (by rw [follow])
  have hrest := Closed.append hus closed_finish rest
  simp only [List.append_assoc, List.cons_append, List.append_nil] at hread hrest ⊢
  rw [hread, hrest, Option.map_map, flattenAll_singleton, ← hflatten]
  congr 1
  funext r
  simp

end Event

namespace EventLog

open Event Tree

/-! ### The record of a plan -/

/-- The events of an open node behind its start, the first of which is number `first` of the record.
They stand for the trees in the node but `heads`, which were recorded before. -/
inductive Records (positions : List Nat) (first : Nat) (heads : List Tree) :
    List Event → Level → Prop where
  | settled {es : List Event} {ts : List Tree} (h : Spells es ts) :
      Records positions first heads es ⟨heads ++ ts, none⟩
  | newest {es init content fs : List Event} {k : Kind} {t : Tree} {ts us : List Tree}
    {marker : Nat} (hes : Spells es ts) (h : Around init k content t) (hfs : Spells fs us)
    (hmarker : positions[marker]? = some (first + (es ++ init).length)) :
    Records positions first heads (es ++ init ++ start k none :: (content ++ finish :: fs))
      ⟨heads ++ ts ++ t :: us, some (marker, (heads ++ ts).length)⟩

/-- The events in front of those of the innermost open node. If that node was put around another,
the trees `heads` in it have been recorded before its start. -/
inductive Frames (positions : List Nat) :
    List Event → List Tree → List (Nat × Bool × Level) → Prop where
  | nil : Frames positions [] [] []
  | start {es fs : List Event} {heads : List Tree} {outer : List (Nat × Bool × Level)}
    {level : Level} {marker : Nat} (h : Frames positions es heads outer)
      (hlevel : Records positions es.length heads fs level)
    (hmarker : positions[marker]? = some (es ++ fs).length) :
    Frames positions (es ++ fs ++ [blank]) [] ((marker, false, level) :: outer)
  | precede {es fs init content gs : List Event} {heads ts us : List Tree}
    {outer : List (Nat × Bool × Level)} {k : Kind} {t : Tree} {marker : Nat}
    (h : Frames positions es heads outer) (hfs : Spells fs ts) (hnode : Around init k content t)
    (hgs : Spells gs us)
    (hmarker : positions[marker]? = some (es ++ fs ++ linked init k content gs).length) :
    Frames positions (es ++ fs ++ linked init k content gs ++ [blank]) (t :: us)
      ((marker, true, ⟨heads ++ ts, none⟩) :: outer)

/-- The record is that of a plan. -/
def Holds (l : EventLog) (p : Plan) : Prop :=
  p.markers = l.positions.length ∧ ∃ es heads fs, l.events = es ++ fs ∧
    Frames l.positions es heads p.outer ∧ Records l.positions es.length heads fs p.inner

variable {positions positions' : List Nat} {first : Nat} {heads : List Tree} {es fs : List Event}
  {level : Level} {outer : List (Nat × Bool × Level)} {l : EventLog} {p p' : Plan}

lemma Records.mono (h : Records positions first heads es level) (n : Nat) :
    Records (positions ++ [n]) first heads es level := by
  cases h with
  | settled h => exact .settled h
  | newest hes h hfs hmarker =>
    refine .newest hes h hfs ?_
    rw [List.getElem?_append_left (List.getElem?_eq_some_iff.mp hmarker).1, hmarker]

lemma getElem?_concat_of_some {m x : Nat} (h : positions[m]? = some x) (n : Nat) :
    (positions ++ [n])[m]? = some x := by
  rw [List.getElem?_append_left (List.getElem?_eq_some_iff.mp h).1, h]

lemma Frames.mono (h : Frames positions es heads outer) (n : Nat) :
    Frames (positions ++ [n]) es heads outer := by
  induction h with
  | nil => exact .nil
  | start _ hlevel hmarker ih => exact .start ih (hlevel.mono n) (getElem?_concat_of_some hmarker n)
  | precede _ hfs hnode hgs hmarker ih =>
    exact .precede ih hfs hnode hgs (getElem?_concat_of_some hmarker n)

/-- All of an open node's events can be read on their own. -/
lemma Records.spells (h : Records positions first heads es level) :
    ∃ ts, level.trees = heads ++ ts ∧ Spells es ts := by
  cases h with
  | settled h => exact ⟨_, rfl, h⟩
  | newest hes h hfs hmarker =>
    refine ⟨_, List.append_assoc .., ?_⟩
    simpa using (hes.append h.spells).append hfs

lemma Records.add (h : Records positions first heads es level) (t : Token) :
    Records positions first heads (es ++ [ofToken t]) (level.add (.leaf t)) := by
  cases h with
  | settled h =>
    have : Records positions first heads _ _ := .settled (h.append (spells_token t))
    simpa [Level.add] using this
  | newest hes h hfs hmarker =>
    have : Records _ _ heads _ _ := .newest hes h (hfs.append (spells_token t)) hmarker
    simpa [Level.add] using this

/-- Where nothing has been recorded, it does not matter where that is. -/
lemma Records.of_nil {m n : Nat} (h : Records positions m heads [] level) :
    Records positions n heads [] level := by
  generalize hes : ([] : List Event) = es at h
  cases h with
  | settled h => exact .settled h
  | newest hes' h hfs hmarker => simp at hes

/-- A node that is completed takes the place of the one that was completed last. -/
lemma Records.addNode {init content : List Event} {k : Kind} {t : Tree} {marker : Nat}
    (h : Records positions first heads es level) (ht : Around init k content t)
    (hmarker : positions[marker]? = some (first + (es ++ init).length)) :
    Records positions first heads (es ++ init ++ start k none :: (content ++ [finish]))
      (level.addNode marker t) := by
  obtain ⟨ts, htrees, hes⟩ := h.spells
  rw [Level.addNode, htrees]
  exact .newest hes ht spells_nil hmarker

/-- What was recorded in a node that is given up belongs to the node around it. -/
lemma Records.append {inner : Level} {bs : List Event} (h : Records positions first heads es level)
    (hbs : Spells bs []) (h' : Records positions (first + (es ++ bs).length) [] fs inner) :
    Records positions first heads (es ++ bs ++ fs) (level.append inner) := by
  cases h' with
  | @settled fs us hfs =>
    cases h with
    | settled hes =>
      have : Records positions first heads _ _ := .settled ((hes.append hbs).append hfs)
      simpa [Level.append] using this
    | newest hes ht hgs hmarker =>
      have : Records _ _ heads _ _ := .newest hes ht ((hgs.append hbs).append hfs) hmarker
      simpa [Level.append] using this
  | newest hfs ht hgs hmarker =>
    obtain ⟨ts, htrees, hes⟩ := h.spells
    have : Records positions first heads _ _ :=
      .newest ((hes.append hbs).append hfs) ht hgs (by rw [hmarker]; simp; omega)
    simpa [Level.append, htrees, Nat.add_assoc] using this

/-! ### One operation -/

section

variable {xs ys : List Event} {k : Kind} {forward? : Option Nat} {marker : Nat}

lemma apply_complete (hl : l.events = xs ++ Event.start k forward? :: ys)
    (hmarker : l.positions[marker]? = some xs.length) (kind : Kind) :
    l.apply (.complete marker kind) =
      some { l with events := xs ++ Event.start kind forward? :: (ys ++ [finish]) } := by
  simp [EventLog.apply, hmarker, hl, complete?]

lemma apply_precede (hl : l.events = xs ++ Event.start k forward? :: ys)
    (hmarker : l.positions[marker]? = some xs.length) :
    l.apply (.precede marker) =
      some ⟨xs ++ Event.start k (some (ys.length + 1)) :: (ys ++ [blank]),
        l.positions ++ [l.events.length]⟩ := by
  simp [EventLog.apply, hmarker, hl, precede?]

lemma apply_abandon_last (hl : l.events = xs ++ [blank])
    (hmarker : l.positions[marker]? = some xs.length) :
    l.apply (.abandon marker) = some { l with events := xs } := by
  simp [EventLog.apply, hmarker, hl, abandon?, blank]

lemma apply_abandon (hl : l.events = xs ++ blank :: ys) (hys : ys ≠ [])
    (hmarker : l.positions[marker]? = some xs.length) : l.apply (.abandon marker) = some l := by
  have hevents : abandon? l.events xs.length = some l.events := by simp [hl, abandon?, hys]
  simp [EventLog.apply, hmarker, hevents]

end

lemma Holds.start (h : Holds l p) :
    Holds ⟨l.events ++ [blank], l.positions ++ [l.events.length]⟩
      ⟨p.markers + 1, {}, (p.markers, false, p.inner) :: p.outer⟩ := by
  obtain ⟨hcount, es, heads, fs, hevents, hframes, hrecords⟩ := h
  refine ⟨by simp [hcount], es ++ fs ++ [blank], [], [], by simp [hevents], ?_, .settled spells_nil⟩
  exact .start (hframes.mono _) (hrecords.mono _) (by simp [hcount, hevents])

lemma Holds.token (h : Holds l p) (t : Token) :
    Holds { l with events := l.events ++ [ofToken t] }
      { p with inner := p.inner.add (.leaf t) } := by
  obtain ⟨hcount, es, heads, fs, hevents, hframes, hrecords⟩ := h
  exact ⟨hcount, es, heads, fs ++ [ofToken t], by simp [hevents], hframes, hrecords.add t⟩

/-- The innermost open node is completed. -/
lemma Holds.complete {marker : Nat} {b : Bool} {kind : Kind} (h : Holds l p)
    (houter : p.outer = (marker, b, level) :: outer) (hkind : kind ≠ .tombstone) :
    ∃ l', l.apply (.complete marker kind) = some l' ∧
      Holds l' { p with inner := level.addNode marker (.node kind p.inner.trees), outer } := by
  obtain ⟨hcount, es, heads, fs, hevents, hframes, hrecords⟩ := h
  obtain ⟨us, hus, hfs⟩ := hrecords.spells
  rw [houter] at hframes
  cases hframes with
  | @start es' fs' heads' _ _ _ hframes hlevel hmarker =>
    have hnode : Around [] kind fs (.node kind p.inner.trees) := hus ▸ .base hkind hfs
    have hlog : l.events = (es' ++ fs') ++ blank :: fs := by simp [hevents]
    refine ⟨_, apply_complete hlog hmarker kind, hcount, es', heads',
      fs' ++ [] ++ Event.start kind none :: (fs ++ [finish]), by simp, hframes, ?_⟩
    exact hlevel.addNode hnode (by simpa using hmarker)
  | @precede es' fs' init content gs heads' ts vs _ k t _ hframes hfs' hnode hgs hmarker =>
    have hnode' : Around (linked init k content gs) kind fs (.node kind p.inner.trees) :=
      hus ▸ .step hnode hgs hkind hfs
    have hlog : l.events = (es' ++ fs' ++ linked init k content gs) ++ blank :: fs := by
      simp [hevents]
    refine ⟨_, apply_complete hlog hmarker kind, hcount, es', heads',
      fs' ++ linked init k content gs ++ Event.start kind none :: (fs ++ [finish]), by
        simp, hframes, ?_⟩
    exact (Records.settled hfs').addNode hnode' (by simpa using hmarker)

/-- The innermost open node is given up. -/
lemma Holds.abandon {marker : Nat} (h : Holds l p)
    (houter : p.outer = (marker, false, level) :: outer) :
    ∃ l', l.apply (.abandon marker) = some l' ∧
      Holds l' { p with inner := level.append p.inner, outer } := by
  obtain ⟨hcount, es, heads, fs, hevents, hframes, hrecords⟩ := h
  rw [houter] at hframes
  cases hframes with
  | @start es' fs' heads' _ _ _ hframes hlevel hmarker =>
    have hlog : l.events = (es' ++ fs') ++ blank :: fs := by simp [hevents]
    by_cases hnil : fs = []
    · -- nothing was recorded in the node, so nothing of it is left
      subst hnil
      refine ⟨_, apply_abandon_last hlog hmarker, hcount, es', heads', fs' ++ [] ++ [], by simp,
        hframes, ?_⟩
      exact hlevel.append spells_nil hrecords.of_nil
    · refine ⟨l, apply_abandon hlog hnil hmarker, hcount, es', heads', fs' ++ [blank] ++ fs,
        by simp [hevents], hframes, ?_⟩
      exact hlevel.append spells_blank (by simpa [Nat.add_assoc] using hrecords)

/-- A node is put around the one that was completed last. -/
lemma Holds.precede {marker i : Nat} (h : Holds l p)
    (hnewest : p.inner.newest? = some (marker, i)) : ∃ l', l.apply (.precede marker) = some l' ∧
      Holds l' ⟨p.markers + 1, { trees := p.inner.trees.drop i },
        (p.markers, true, { trees := p.inner.trees.take i }) :: p.outer⟩ := by
  obtain ⟨hcount, es, heads, fs, hevents, hframes, hrecords⟩ := h
  generalize hinner : p.inner = inner at hrecords hnewest
  cases hrecords with
  | settled hfs => simp at hnewest
  | @newest fs init content gs k t ts us m hfs ht hgs hmarker =>
    obtain ⟨rfl, rfl⟩ : m = marker ∧ (heads ++ ts).length = i := by simpa using hnewest
    have hlog : l.events = (es ++ (fs ++ init)) ++ Event.start k none ::
        (content ++ finish :: gs) := by
      simp [hevents]
    refine ⟨_, apply_precede hlog (by simpa using hmarker), by simp [hcount],
      es ++ fs ++ linked init k content gs ++ [blank], t :: us, [], ?_, ?_, ?_⟩
    · simp [linked, Nat.add_comm, Nat.add_left_comm]
    · rw [List.take_left]
      exact .precede (hframes.mono _) hfs ht hgs (by simp [hcount, hevents, linked])
    · simpa using Records.settled spells_nil

/-- **One operation** that keeps the discipline is recorded, and the record is that of the new
plan. -/
lemma Holds.step {op : MarkOp} (h : Holds l p) (hstep : p.Steps op p') :
    ∃ l', l.apply op = some l' ∧ Holds l' p' := by
  cases hstep with
  | start => exact ⟨_, rfl, h.start⟩
  | token t => exact ⟨_, rfl, h.token t⟩
  | complete b houter hkind => exact h.complete houter hkind
  | abandon houter => exact h.abandon houter
  | precede hnewest => exact h.precede hnewest

/-- So is a whole run, operation by operation. -/
lemma Holds.run {ops : List MarkOp} (h : Holds l p) (hrun : p.run? ops = some p') :
    ∃ l', l.run ops = some l' ∧ Holds l' p' := by
  induction ops generalizing l p with
  | nil =>
    obtain rfl : p = p' := by simpa [Plan.run?] using hrun
    exact ⟨l, rfl, h⟩
  | cons op ops ih =>
    obtain ⟨next, hstep, hrest⟩ := Plan.run?_cons hrun
    obtain ⟨l', happly, h'⟩ := h.step hstep
    obtain ⟨l'', hrun', h''⟩ := ih h' hrest
    exact ⟨l'', by rw [EventLog.run, happly]; exact hrun', h''⟩

lemma holds_nil : Holds {} {} :=
  ⟨rfl, [], [], [], rfl, .nil, .settled spells_nil⟩

/-- What is read of the record of an intended tree are the calls that build it. -/
lemma calls_of_intended {ops : List MarkOp} {tree : Tree} (h : Plan.Intended ops tree) :
    ∃ l, run {} ops = some l ∧ calls l.events = some (flatten tree) := by
  obtain ⟨p, hrun, houter, htrees, -⟩ := h
  obtain ⟨l, hl, -, es, heads, fs, hevents, hframes, hrecords⟩ := holds_nil.run hrun
  rw [houter] at hframes
  cases hframes
  obtain ⟨ts, hts, hspells⟩ := hrecords.spells
  have hread := hspells []
  rw [List.append_nil, calls, Option.map_some, List.append_nil] at hread
  have htree : ts = [tree] := by simpa [htrees] using hts.symm
  exact ⟨l, hl, by rw [hevents, List.nil_append, hread, htree, flattenAll_singleton]⟩

end EventLog

/-! ### Reading the calls -/

namespace Builder

open Tree

lemma of_triviaFits_node {k : Kind} {cs : List Tree} (h : (node k cs).TriviaFits) :
    ∀ c ∈ cs, c.TriviaFits := by
  intro c hc j hj
  exact h j (by rw [tokens_node, List.mem_flatMap]; exact ⟨c, hc, hj⟩)

mutual

/-- The calls of a tree whose text is the next part of the text put the tree into the row. -/
lemma run_flatten (b : Builder) (rest : List BuildOp) {before after : Text} : (t : Tree) →
    t.TriviaFits → b.text = before ++ t.text ++ after → b.offset = Text.size before →
    b.run (flatten t ++ rest) =
      ({ b with offset := b.offset + t.size, children := b.children ++ [t] } : Builder).run rest
  | .leaf k, hfits, htext, hoffset => by
    have hk : k.leading.total + k.trailing.total ≤ k.size := hfits k (by simp)
    have htotal : k.leading.total + (k.size - (k.leading.total + k.trailing.total)) +
        k.trailing.total = k.size := by omega
    have hslice : Text.slice? b.text (.ofSize b.offset k.size) = some k.fullText := by
      rw [htext, hoffset, text_leaf, Token.size]
      exact Text.slice?_append ..
    rw [flatten, Tree.size]
    simp only [List.cons_append, List.nil_append, Builder.run, Builder.apply, Builder.token,
      htotal, hslice]
    rfl
  | .node k cs, hfits, htext, hoffset => by
    rw [text_node] at htext
    have hcs := run_flattenAll (b.startNode k) (.finish :: rest) cs (of_triviaFits_node hfits)
      htext hoffset
    rw [flatten, Tree.size, List.cons_append, List.append_assoc, Builder.run, Builder.apply]
    simp only [List.cons_append, List.nil_append]
    show (b.startNode k).run _ = _
    rw [hcs, Builder.run, Builder.apply, Builder.finishNode]
    simp [Builder.startNode]
    rfl

lemma run_flattenAll (b : Builder) (rest : List BuildOp) {before after : Text} : (cs : List Tree) →
    (∀ c ∈ cs, c.TriviaFits) → b.text = before ++ textAll cs ++ after →
      b.offset = Text.size before → b.run (flattenAll cs ++ rest) =
      ({ b with offset := b.offset + sizeAll cs, children := b.children ++ cs } : Builder).run rest
  | [], _, _, _ => by simp [sizeAll]
  | c :: cs, hfits, htext, hoffset => by
    have hc := run_flatten b (flattenAll cs ++ rest) c (hfits c (by simp))
      (show b.text = before ++ c.text ++ (textAll cs ++ after) by simp [htext]) hoffset
    have hcs := run_flattenAll { b with offset := b.offset + c.size, children := b.children ++ [c] }
      rest cs (fun d hd => hfits d (by simp [hd]))
      (show b.text = (before ++ c.text) ++ textAll cs ++ after by simp [htext])
      (by simp [hoffset, size_eq])
    rw [flattenAll, List.append_assoc, hc, hcs]
    simp [sizeAll, Nat.add_assoc]

end

/-- Building undoes taking apart, if the text is there. -/
lemma build_flatten {t : Tree} (h : t.isNode) (hfits : t.TriviaFits) (before after : Text) :
    build (before ++ t.text ++ after) (Text.size before) (flatten t) = .ok t := by
  have hrun :=
    run_flatten { text := before ++ t.text ++ after, offset := Text.size before } [] t hfits rfl rfl
  rw [List.append_nil] at hrun
  rw [build, hrun]
  cases t with
  | leaf k => simp [isNode] at h
  | node k cs => rfl

end Builder

namespace EventLog

open Event Tree

/-- Reading the record of an intended tree builds it, if its text is there. -/
lemma replay_of_intended {ops : List MarkOp} {tree : Tree} (h : Plan.Intended ops tree)
    (hfits : tree.TriviaFits) (before after : Text) : ∃ l, run {} ops = some l ∧
      replay (before ++ tree.text ++ after) (Text.size before) l.events = some (.ok tree) := by
  obtain ⟨l, hrun, hcalls⟩ := calls_of_intended h
  have hnode : tree.isNode := h.choose_spec.2.2.2
  refine ⟨l, hrun, ?_⟩
  rw [replay, hcalls]
  exact congrArg some (Builder.build_flatten hnode hfits ..)

/-- **The tree that a record stands for is the intended one.** Operations that keep the discipline
are recorded, each at a start that is there, and if the tokens are the next part of the text,
reading the record leads to no event that is not a start, and nothing goes wrong in building. If
each node is put around another right after that one has been completed, the tree that is built at
once is the same. -/
theorem replay_intended (ops : List MarkOp) (tree : Tree) (before after : Text)
    (h : Plan.Intended ops tree)
    (hfits : ∀ k, .token k ∈ ops → k.leading.total + k.trailing.total ≤ k.size) :
    (∃ l, run {} ops = some l ∧
      replay (before ++ (ops.filterMap MarkOp.token?).flatMap Token.fullText ++ after)
        (Text.size before) l.events = some (.ok tree)) ∧
    (MarkOp.Prompt false ops → ops.foldl Forest.apply {} = ⟨[tree], []⟩) := by
  constructor
  · have htree : tree.TriviaFits := by
      intro k hk
      rw [h.tokens, List.mem_filterMap] at hk
      obtain ⟨op, hop, hk⟩ := hk
      cases op <;> simp [MarkOp.token?] at hk
      exact hfits k (hk ▸ hop)
    rw [← h.tokens, ← text_eq_tokens]
    exact replay_of_intended h htree before after
  · intro hprompt
    obtain ⟨p, hrun, houter, htrees, -⟩ := h
    have hfollows := Forest.follows_run (f := {}) (p := {}) rfl (by simp) hrun hprompt
    rw [show _ = _ from hfollows, houter, htrees]
    rfl

/-- A sum of three numbers as it is read from left to right: two nodes around the first number, and
a node in between that is given up. -/
def sumOps : List MarkOp :=
  let number (text : String) : MarkOp := .token { kind := .number, fullText := text.toList }
  let plus : MarkOp :=
    .token { kind := .plus, fullText := " +".toList, leading := [(.whitespace, 1)] }
  [.start, number "1", .complete 0 .numberExpr,
    .precede 0, plus, .start, number "2", .complete 2 .numberExpr, .complete 1 .binaryExpr,
    .precede 1, plus, .start, .start, number "3", .complete 5 .numberExpr, .abandon 4,
      .complete 3 .binaryExpr]

def sumTree : Tree :=
  let number (text : String) : Tree :=
    .node .numberExpr [.leaf { kind := .number, fullText := text.toList }]
  let plus : Tree := .leaf { kind := .plus, fullText := " +".toList, leading := [(.whitespace, 1)] }
  .node .binaryExpr [.node .binaryExpr [number "1", plus, number "2"], plus, number "3"]

theorem replay_intended_sum : Plan.Intended sumOps sumTree ∧
    (∀ k, .token k ∈ sumOps → k.leading.total + k.trailing.total ≤ k.size) ∧
    (∃ l, run {} sumOps = some l ∧
      replay ("é1 +2 +3;".toList) 2 l.events = some (.ok sumTree)) ∧
    sumOps.foldl Forest.apply {} = ⟨[sumTree], []⟩ := by
  have hintended : Plan.Intended sumOps sumTree := ⟨_, rfl, rfl, rfl, rfl⟩
  have hfits : ∀ k, .token k ∈ sumOps → k.leading.total + k.trailing.total ≤ k.size := by
    intro k hk
    simp only [sumOps, List.mem_cons, MarkOp.token.injEq, reduceCtorEq, false_or, or_false,
      List.not_mem_nil] at hk
    rcases hk with rfl | rfl | rfl | rfl | rfl <;> decide
  have hexact := replay_intended sumOps sumTree "é".toList ";".toList hintended hfits
  exact ⟨hintended, hfits, hexact.1, hexact.2 (by simp [sumOps, MarkOp.Prompt])⟩

end EventLog

end DialogueScript
