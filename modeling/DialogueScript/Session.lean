import DialogueScript.Parse.Reparse

/-!
Files that are open for editing. A file remembers the parse from before its last edit, so that the
next parse reads only the node that was touched.
-/

namespace DialogueScript

/-- A parse to start from, and the edit made after it. -/
structure PendingEdit where
  base : Parse
  edit : Edit
deriving DecidableEq, Repr

structure File where
  path : String
  text : Text
  config : Config := {}
  pending : Option PendingEdit := none
deriving DecidableEq, Repr

namespace File

/-- Parses a file. A pending edit is used only if the settings are still those of its base. -/
def parse? (f : File) : Option Parse.Reparsed :=
  match f.pending with
  | some p =>
    if p.base.config = f.config then p.base.reparse? p.edit f.text
    else some ⟨.ofText f.config f.text, none⟩
  | none => some ⟨.ofText f.config f.text, none⟩

/-- The diagnostics of a file in the order of the text. -/
def check? (f : File) : Option (List Diagnostic) :=
  f.parse?.map fun r => Diagnostic.sort r.parse.diagnostics

/-- Puts `insert` in the place of the bytes in `delete` and remembers the parse from before. -/
def edit? (f : File) (delete : Range) (insert : Text) : Option File := do
  let base ← f.parse?
  let text ← Text.replace? f.text delete insert
  return { f with text, pending := some ⟨base.parse, .replace delete insert⟩ }

/-- Replaces the whole text. -/
def setText (f : File) (text : Text) : File := { f with text, pending := none }

def setConfig (f : File) (config : Config) : File := { f with config }

end File

/-- The open files by their paths. -/
structure Session where
  files : List File := []
deriving DecidableEq, Repr

namespace Session

def file? (s : Session) (path : String) : Option File := s.files.find? (·.path = path)

/-- Puts a file in the place of the one with the same path, if there is one. -/
def insert (s : Session) (f : File) : Session := ⟨f :: s.files.filter (·.path ≠ f.path)⟩

end Session

end DialogueScript
