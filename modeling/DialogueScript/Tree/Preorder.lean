import DialogueScript.Tree.Located

/-!
A walk through the nodes of a tree that enters and leaves each of them. The walk is one event ahead
of its reader, who can ask it to pass over what lies below the node that was entered last.
-/

namespace DialogueScript

inductive WalkEvent where
  | enter (node : Located)
  | leave (node : Located)

namespace WalkEvent

def node : WalkEvent → Located
  | enter n => n
  | leave n => n

def isEnter : WalkEvent → Bool
  | enter _ => true
  | leave _ => false

end WalkEvent

structure Preorder where
  start : Located
  /-- The event that the reader gets next. -/
  next : Option WalkEvent
  /-- Whether the reader has asked to pass over a subtree. -/
  skipping : Bool

namespace Preorder

def ofNode (start : Located) : Preorder := ⟨start, some (.enter start), false⟩

def skipSubtree (p : Preorder) : Preorder := { p with skipping := true }

/-- The event after a given one, in a walk that ends with leaving `start`. -/
def following (start : Located) : WalkEvent → Option WalkEvent
  | .enter n =>
    match n.firstChild? with
    | some c => some (.enter c)
    | none => some (.leave n)
  | .leave n =>
    if n.path = start.path then none
    else
      match n.nextSibling? with
      | some s => some (.enter s)
      | none => n.parent?.map .leave

/-- The event to hand out instead of `e` after a skip: leaving takes the place of entering. -/
def skipped : WalkEvent → Option WalkEvent
  | .enter n => n.parent?.map .leave
  | .leave n => some (.leave n)

/-- Hands out the next event. -/
def step (p : Preorder) : Option WalkEvent × Preorder :=
  let event := if p.skipping then p.next.bind skipped else p.next
  (event, { p with next := event.bind (following p.start), skipping := false })

/-- The first `n` events for a reader that asks for a skip after each event that `skip` selects. -/
def take (skip : WalkEvent → Bool) : Nat → Preorder → List WalkEvent
  | 0, _ => []
  | n + 1, p =>
    match p.step with
    | (none, _) => []
    | (some e, p) => e :: take skip n (if skip e then p.skipSubtree else p)

end Preorder

/-- The whole walk from a node. Every node is entered and left at most once. -/
def Located.walk (start : Located) (skip : WalkEvent → Bool) : List WalkEvent :=
  (Preorder.ofNode start).take skip (2 * start.tree.nodeCount)

end DialogueScript
