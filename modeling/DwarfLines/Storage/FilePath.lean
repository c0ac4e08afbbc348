/-!
# Paths of files

A path is read part by part, and each part is looked up in the directory that the parts before it
lead to. The place of a new file is told from a simpler form, in which parts that stay where they
are count only at the front.
-/

namespace DwarfLines

/-- What a part of a path leads to. -/
inductive PathPart where
  | root
  | here
  | up
  | name (text : String)
  deriving DecidableEq, Repr

namespace PathPart

def ofText (text : String) : PathPart :=
  if text = "" ∨ text = "." then here else if text = ".." then up else name text

/-- The parts of a path. An empty part stays where it is, at the front it leads to the root. -/
def list (path : String) : List PathPart :=
  match path.splitOn "/" with
  | "" :: rest => root :: rest.map ofText
  | texts => texts.map ofText

/-- The parts of a path without those that stay where they are, except at the front. -/
def simplified (path : String) : List PathPart :=
  match list path with
  | first :: rest => first :: rest.filter (· != here)
  | [] => []

def text : PathPart → String
  | root => ""
  | here => "."
  | up => ".."
  | name text => text

def join : List PathPart → String
  | [root] => "/"
  | parts => "/".intercalate (parts.map text)

end PathPart
end DwarfLines
