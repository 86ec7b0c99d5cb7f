import TypedProperties.Text.Cut

/-! File paths as text: parts between slashes, joining, and the directory a path stands in. -/
namespace TypedProperties
namespace Path

abbrev separator : Char := '/'

def isAbsolute (path : Text) : Bool := path.head? = some separator

/-- The parts between slashes. A slash at the end leaves an empty last part. -/
def parts (path : Text) : List Text := Text.splitAll separator path

/-- `dir` and `name` with one slash between them; an empty `dir` adds nothing, and an absolute
name stands for itself. -/
def join (dir name : Text) : Text :=
  if isAbsolute name then name
  else if dir = [] ∨ dir.getLast? = some separator then dir ++ name
  else dir ++ separator :: name

/-- Without the slashes, and the `.` parts after a slash, at the end of `path`. The argument is
the reversed path, and so is the result. -/
def dropIdleEnd : Text → Text
  | '/' :: rest => if rest = [] then ['/'] else dropIdleEnd rest
  | '.' :: '/' :: rest => if rest = [] then ['/'] else dropIdleEnd rest
  | path => path

/-- The directory that `path` stands in: the path less its last part. A path of one part stands in
the empty path, and the root in none. -/
def parent (path : Text) : Option Text :=
  match dropIdleEnd path.reverse with
  | [] => none
  | ['/'] => none
  | back => some (dropIdleEnd (back.dropWhile (· ≠ separator))).reverse

def isName (part : Text) : Bool := part ≠ [] ∧ part ≠ ['.'] ∧ part ≠ ['.', '.']

/-- The path with `ending` behind the name at its end, idle parts behind that name left out. -/
def extend (ending path : Text) : Option Text :=
  let path := (dropIdleEnd path.reverse).reverse
  if (parts path).getLast?.any isName then some (path ++ ending) else none

end Path
end TypedProperties
