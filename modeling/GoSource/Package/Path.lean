/-
Paths of files.

A path is kept as it was written, since that is how it is shown. Two
spellings are nevertheless the same path when they have the same *parts*:
slashes may be doubled, a slash or a dot may follow, and neither adds a
part. Only a dot in front is a part of its own, so `./a` is another path
than `a`, although both lead to the same file.

# Order

Paths are ordered by their parts and not by their text, so that `a/b`
comes before `a!`, as the shorter first part of it.
-/

namespace GoSource

/-- One part of a path. -/
inductive PathPart where
  /-- The root, which only a path that begins with a slash has. -/
  | root
  /-- A dot in front. -/
  | here
  | up
  | name (text : String)
deriving DecidableEq, Repr

namespace PathPart

/-- Where the kind of a part stands among the kinds. -/
def rank : PathPart → Nat
  | root => 0
  | here => 1
  | up => 2
  | name _ => 3

/-- Whether a part is ordered before another. -/
def before : PathPart → PathPart → Bool
  | name a, name b => a < b
  | p, q => p.rank < q.rank

end PathPart

namespace Path

-- =============================================================== parts

/-- The stretches of a text between its slashes, as many as there are
slashes and one more. -/
def stretches : List Char → List (List Char)
  | [] => [[]]
  | c :: rest =>
    if c = '/' then [] :: stretches rest
    else match stretches rest with
      | [] => [[c]]
      | s :: more => (c :: s) :: more

/-- The part that a stretch adds after the first. -/
def laterPart (stretch : List Char) : Option PathPart :=
  if stretch = [] || stretch = ['.'] then none
  else if stretch = ['.', '.'] then some .up
  else some (.name (.ofList stretch))

/-- The part that the first stretch adds. It is empty in a path from the
root, and in an empty path. -/
def firstPart (path : List Char) (stretch : List Char) : Option PathPart :=
  if stretch = [] then if path = [] then none else some .root
  else if stretch = ['.'] then some .here
  else laterPart stretch

/-- The parts of a path. -/
def parts (path : String) : List PathPart :=
  match stretches path.toList with
  | [] => []
  | first :: later => (firstPart path.toList first).toList ++ later.filterMap laterPart

/-- Whether two spellings are the same path. -/
def same (a b : String) : Bool := parts a = parts b

/-- Whether parts are ordered before others: the first difference counts,
and the beginning of something comes before the whole. -/
def partsBefore (p q : List PathPart) : Bool := List.lex p q PathPart.before

-- ======================================================== combinations

/-- The path of something in a directory. -/
def join (dir name : String) : String :=
  if dir = "" || dir.toList.getLast? = some '/' then dir ++ name else dir ++ "/" ++ name

/-- Paths in order, each once. Of several spellings of one path, the
first is kept. -/
def ordered (paths : List String) : List String :=
  (paths.mergeSort fun a b => !partsBefore (parts b) (parts a)).eraseDupsBy same

end Path

end GoSource
