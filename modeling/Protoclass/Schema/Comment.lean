import Protoclass.Text.Basic

/-!
# Comments in schema files

A comment may belong to the declaration after it, to the token before it, or to
neither.  Line comments on adjacent lines make one group; a block comment is a
group of its own.  A group leads a declaration if it ends on the line before the
declaration or later, and is not taken by the token before it:

* a comment that starts on the line of the token before, with the declaration on
  a later line, is taken by that token, unless it is a block comment that reaches
  the declaration's line alone;
* if nothing was taken so, the first group is taken when it starts no later than
  on the line after that token, and other groups or an empty line follow it.

A single group that touches the lines of both belongs to neither.
-/

namespace Protoclass.Schema

/-- A comment with the lines that it starts and ends on. -/
structure Comment where
  /-- What is written between the comment's marks. -/
  text : Text
  /-- It goes to the end of its line. -/
  isLine : Bool
  /-- A line comment that a newline follows. -/
  endsLine : Bool := true
  startLine : Nat
  endLine : Nat
  deriving DecidableEq, Repr

namespace Comment

/-- The line of a block comment without the blanks and the star it starts with. -/
def trimLine (line : Text) : Text :=
  match line.dropWhile fun b => b = Text.space || b = 9 with
  | [] => []
  | b :: rest => if b = 42 then rest else b :: rest

/-- What a comment says. -/
def content (comment : Comment) : Text :=
  if comment.isLine then comment.text ++ (if comment.endsLine then [Text.newline] else [])
  else
    match Text.splitOn Text.newline comment.text with
    | [] => []
    | first :: rest => Text.join [Text.newline] (first :: rest.map trimLine)

/-- The groups of comments, after a group that is under way. -/
def groupsFrom (group : List Comment) : List Comment → List (List Comment)
  | [] => [group]
  | comment :: rest =>
    match group.getLast? with
    | some last =>
      if comment.isLine && last.isLine && comment.startLine ≤ last.endLine + 1 then
        groupsFrom (group ++ [comment]) rest
      else group :: groupsFrom [comment] rest
    | none => groupsFrom [comment] rest

/-- The groups of comments. -/
def groups : List Comment → List (List Comment)
  | [] => []
  | comment :: rest => groupsFrom [comment] rest

/-- The line that a group starts on. -/
def groupStart (group : List Comment) : Nat := (group.head?.map (·.startLine)).getD 0

/-- The line that a group ends on. -/
def groupEnd (group : List Comment) : Nat := (group.getLast?.map (·.endLine)).getD 0

/-- Whether the first comment after a token that ends on `previous` is taken by
it, before a token on `line`. -/
def isTrailing (previous line : Nat) (comments : List Comment) : Bool :=
  match comments with
  | [] => false
  | first :: rest =>
    previous < line && first.startLine = previous
      && (first.isLine || !rest.isEmpty || first.endLine < line)

/-- The groups without the first one, if the token before takes it. -/
def afterDonation (previous line : Nat) (closes : Bool) (groups : List (List Comment)) :
    Bool × List (List Comment) :=
  match groups with
  | [] => (false, [])
  | first :: rest =>
    if previous + 1 < groupStart first then (false, groups)
    else if !rest.isEmpty then (true, rest)
    else if groupEnd first + 1 < line then (true, [])
    else if closes && !(groupStart first = previous && groupEnd first = line) then (true, [])
    else (false, groups)

/-- The group among those left that leads a token on `line`, after a token on
`previous` that has taken comments or not. -/
def leadingGroup (previous : Option Nat) (line : Nat) (taken : Bool)
    (groups : List (List Comment)) : List Comment :=
  match groups.getLast? with
  | none => []
  | some last =>
    let ambiguous := groups.length = 1 && !taken
      && previous = some (groupStart last) && groupEnd last = line
    if ambiguous || groupEnd last + 1 < line then [] else last

/-- The comment that leads a token on `line`, after a token that ends on
`previous`, from the comments between them.  `closes` says that the token ends
something. -/
def leading (previous : Option Nat) (line : Nat) (closes : Bool) (comments : List Comment) :
    Text :=
  let group := match previous with
    | none => leadingGroup none line false (groups comments)
    | some ended =>
      if isTrailing ended line comments then
        leadingGroup previous line true (groups (comments.drop 1))
      else
        let (taken, rest) := afterDonation ended line closes (groups comments)
        leadingGroup previous line taken rest
  group.flatMap content

end Comment

end Protoclass.Schema
