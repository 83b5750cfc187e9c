/-!
File paths as texts whose parts are separated by slashes: joining, the enclosing directory, and
lexical resolution of `.` and `..`.
-/

set_option autoImplicit false

namespace BitTorrent.Path

/-- A path that starts at the root. -/
def isAbsolute (path : List Char) : Bool :=
  path.head? = some '/'

/-- Appends a part: an absolute part replaces the path, and one slash separates the two. An empty
part leaves a trailing slash. -/
def pushChars (path part : List Char) : List Char :=
  if isAbsolute part then part
  else if path.isEmpty || path.getLast? = some '/' then path ++ part
  else path ++ '/' :: part

/-- Appends a part to a path. -/
def push (path part : String) : String :=
  String.ofList (pushChars path.toList part.toList)

/-- The texts between slashes, at least one. -/
def splitChars : List Char → List (List Char)
  | [] => [[]]
  | char :: rest =>
    if char = '/' then [] :: splitChars rest
    else match splitChars rest with
      | first :: more => (char :: first) :: more
      | [] => [[char]]

/-- The parts of a path that name something: neither empty nor a single point. -/
def parts (path : String) : List String :=
  ((splitChars path.toList).map String.ofList).filter fun part => part ≠ "" ∧ part ≠ "."

/-- A path that ends in a slash can only name a directory. -/
def namesDirectory (path : String) : Bool :=
  path.toList.getLast? = some '/'

/-- A path that ends in a single point behind something else, slashes aside: what stands before the
point has to be a directory. -/
def endsInPoint (path : String) : Bool :=
  match (splitChars path.toList).reverse.dropWhile (·.isEmpty) with
  | ['.'] :: _ :: _ => true
  | _ => false

/-- Follows the parts of a path from a directory, where `..` leads to the enclosing directory and
stays at the root. -/
def resolveParts : List String → List String → List String
  | here, [] => here
  | here, part :: rest =>
    if part = ".." then resolveParts here.dropLast rest else resolveParts (here ++ [part]) rest

/-- The directories and the name that a path leads to, read from the root. -/
def resolve (path : String) : List String :=
  resolveParts [] (parts path)

/-- Drops what names nothing off the end of a list of parts that is given back to front. -/
def dropUnnamed (reversed : List (List Char)) : List (List Char) :=
  reversed.dropWhile fun part => part = [] ∨ part = ['.']

/-- The path without its last naming part; none if there is no such part. -/
def parent? (path : String) : Option String :=
  match dropUnnamed (splitChars path.toList).reverse with
  | [] => none
  | _ :: rest =>
    match dropUnnamed rest with
    | [] => some (if isAbsolute path.toList then "/" else "")
    | rest => some ("/".intercalate (rest.reverse.map String.ofList))

end BitTorrent.Path
