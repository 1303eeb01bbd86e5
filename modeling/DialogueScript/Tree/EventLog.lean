import DialogueScript.Tree.Builder
import DialogueScript.Tree.Forest

/-!
A record of what the rules of a grammar did, from which the tree is built at the end. Each node has
a marker, and a node may be put around one that is finished: its start is then recorded behind the
events that it encloses, and the start of the node inside links forward to it.
-/

namespace DialogueScript

inductive Event where
  /-- A node starts, unless its kind is that of a placeholder. The link tells how many events
  further on the node around this one is recorded to start. -/
  | start (kind : Kind) (forward? : Option Nat)
  /-- The size is that of the token's own text. -/
  | token (leading : TriviaSizes) (kind : Kind) (size : Nat) (trailing : TriviaSizes)
  | finish
deriving DecidableEq, Repr

namespace Event

/-- The start of a node that is not finished or has been given up. -/
def blank : Event := start .tombstone none

/-- What is recorded of a token. -/
def ofToken (t : Token) : Event := token t.leading t.kind (t.range 0).size t.trailing

/-- Goes along the links from an event, in front of the given ones, and blanks out the starts that
it comes to. The answer are the kinds of the nodes there, the inner ones first, and what is left of
the events. A link that leads to no start has no answer. -/
def follow : List Event → Option Nat → Option (List Kind × List Event)
  | events, none => some ([], events)
  -- the event that has the link is blanked out by now
  | events, some 0 => some ([], events)
  | start k forward? :: events, some 1 => do
    let (kinds, events) ← follow events forward?
    return (if k = .tombstone then kinds else k :: kinds, blank :: events)
  | _ :: _, some 1 => none
  | e :: events, some (n + 2) => do
    let (kinds, events) ← follow events (some (n + 1))
    return (kinds, e :: events)
  | [], some (_ + 1) => none

theorem length_follow {events rest : List Event} {forward? : Option Nat} {kinds : List Kind}
    (h : follow events forward? = some (kinds, rest)) : rest.length = events.length := by
  induction events generalizing forward? kinds rest with
  | nil =>
    rcases forward? with _ | _ | n <;> simp_all [follow]
  | cons e events ih =>
    rcases forward? with _ | _ | _ | n
    · simp_all [follow]
    · simp_all [follow]
    · cases e with
      | start k next? =>
        simp only [follow, Option.bind_eq_bind, Option.bind_eq_some_iff] at h
        obtain ⟨⟨ks, es⟩, hfollow, heq⟩ := h
        simp at heq
        simp [← heq.2, ih hfollow]
      | token => simp [follow] at h
      | finish => simp [follow] at h
    · simp only [follow, Option.bind_eq_bind, Option.bind_eq_some_iff] at h
      obtain ⟨⟨ks, es⟩, hfollow, heq⟩ := h
      simp at heq
      simp [← heq.2, ih hfollow]

/-- What a builder is asked for when the events are gone through once. Where a node starts, the
nodes that were put around it later start first. -/
def calls : List Event → Option (List BuildOp)
  | [] => some []
  | .finish :: events => (calls events).map (.finish :: ·)
  | .token leading kind size trailing :: events =>
    (calls events).map (.token leading kind size trailing :: ·)
  | .start k forward? :: events =>
    if k = .tombstone then calls events
    else match h : follow events forward? with
      | none => none
      | some (kinds, rest) => (calls rest).map ((k :: kinds).reverse.map .start ++ ·)
termination_by events => events.length
decreasing_by
  · simp
  · simp
  · simp
  · simp [length_follow h]

/-- The tree that a record stands for; none if a link leads to no start. -/
def replay (text : Text) (start : Nat) (events : List Event) : Option (Except BuildError Tree) := do
  return Builder.build text start (← calls events)

/-! ### Recording -/

/-- A node that began at `position` is finished, and its kind is known now. -/
def complete? (events : List Event) (position : Nat) (kind : Kind) : Option (List Event) :=
  match events[position]? with
  | some (start _ forward?) => some (events.set position (start kind forward?) ++ [finish])
  | _ => none

/-- A node that began at `position` is given up. If nothing was recorded since, its start is taken
back. -/
def abandon? (events : List Event) (position : Nat) : Option (List Event) :=
  if position + 1 = events.length then
    match events[position]? with
    | some (start .tombstone none) => some events.dropLast
    | _ => none
  else some events

/-- A node starts around the one that began at `position`. -/
def precede? (events : List Event) (position : Nat) : Option (List Event) :=
  match (events ++ [blank])[position]? with
  | some (start k _) =>
    some ((events ++ [blank]).set position (start k (some (events.length - position))))
  | _ => none

end Event

/-- What a rule does with the tree. Markers are numbered in the order in which they are handed out,
and a node that is completed keeps the marker that it was opened with. -/
inductive MarkOp where
  /-- Hands out a marker. -/
  | start
  | token (t : Token)
  | complete (marker : Nat) (kind : Kind)
  | abandon (marker : Nat)
  /-- Hands out a marker for a node around the completed one. -/
  | precede (marker : Nat)
deriving DecidableEq, Repr

/-- A log that is being made. -/
structure EventLog where
  events : List Event := []
  /-- Where each marker's node starts, the marker that was handed out first coming first. -/
  positions : List Nat := []
deriving DecidableEq, Repr

namespace EventLog

open Event

/-- Records one thing that a rule does. There is no answer for a marker that was never handed out,
nor if no start is recorded where a marker says. -/
def apply (l : EventLog) : MarkOp → Option EventLog
  | .start => some ⟨l.events ++ [blank], l.positions ++ [l.events.length]⟩
  | .token t => some { l with events := l.events ++ [ofToken t] }
  | .complete marker kind => do
    return { l with events := ← complete? l.events (← l.positions[marker]?) kind }
  | .abandon marker => do return { l with events := ← abandon? l.events (← l.positions[marker]?) }
  | .precede marker => do
    return ⟨← precede? l.events (← l.positions[marker]?), l.positions ++ [l.events.length]⟩

def run (l : EventLog) : List MarkOp → Option EventLog
  | [] => some l
  | op :: ops => do (← l.apply op).run ops

end EventLog

/-- The same, done to a tree that is being built at once: a marker is always that of the innermost
open node, and a node is put around the newest tree. -/
def Forest.apply (f : Forest) : MarkOp → Forest
  | .start => f.start
  | .token t => f.add (.leaf t)
  | .complete _ kind => f.complete kind
  | .abandon _ => f.abandon
  | .precede _ => f.precede

/-- What rules have done with a tree. The innermost open node is the one that is completed or given
up, and a node is put around the one that was completed last. -/
structure Record where
  /-- The newest operation first. -/
  newest : List MarkOp := []
  /-- How many markers have been handed out. -/
  markers : Nat := 0
  /-- The markers of the open nodes, innermost first. -/
  opened : List Nat := []
  /-- The marker of the node that was completed last. -/
  completed : Nat := 0
deriving DecidableEq, Repr

namespace Record

/-- Everything that was done, in order. -/
def operations (r : Record) : List MarkOp := r.newest.reverse

/-- The marker of the innermost open node. If none is open, it is one that was not handed out. -/
def innermost (r : Record) : Nat := r.opened.headD r.markers

def start (r : Record) : Record :=
  { r with
    newest := .start :: r.newest
    markers := r.markers + 1
    opened := r.markers :: r.opened }

def token (r : Record) (t : Token) : Record := { r with newest := .token t :: r.newest }

def complete (r : Record) (kind : Kind) : Record :=
  { r with
    newest := .complete r.innermost kind :: r.newest
    opened := r.opened.tail
    completed := r.innermost }

def abandon (r : Record) : Record :=
  { r with newest := .abandon r.innermost :: r.newest, opened := r.opened.tail }

def precede (r : Record) : Record :=
  { r with
    newest := .precede r.completed :: r.newest
    markers := r.markers + 1
    opened := r.markers :: r.opened }

end Record

end DialogueScript
