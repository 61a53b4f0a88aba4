/-!
Paths as texts. A path is a start (the root, a leading dot, or nothing) and pieces parted by slashes; empty pieces and
single dots at the end do not count when its last piece or the folder above it is asked for.
-/
namespace Gridbook

structure Path where
  text : String
  deriving DecidableEq

/-- One move of a walk through folders. -/
inductive PathStep where
  | here
  | up
  | into (name : String)
  deriving DecidableEq

namespace Path

/-- Pieces between separators; always one more than there are separators. -/
def splitAtSlashes : List Char → List (List Char)
  | [] => [[]]
  | c :: cs =>
    if c = '/' then [] :: splitAtSlashes cs
    else
      match splitAtSlashes cs with
      | [] => [[c]]
      | piece :: pieces => (c :: piece) :: pieces

def isAbsolute (path : Path) : Bool := path.text.toList.head? = some '/'

/-- The start of a path, and the pieces behind it. -/
def split (path : Path) : List Char × List (List Char) :=
  match path.text.toList with
  | '/' :: cs => (['/'], splitAtSlashes cs)
  | ['.'] => (['.'], [])
  | '.' :: '/' :: cs => (['.'], splitAtSlashes ('/' :: cs))
  | cs => ([], splitAtSlashes cs)

/-- An empty piece or a single dot leads nowhere. -/
def isIdle (piece : List Char) : Bool := piece.isEmpty || piece = ['.']

/-- Pieces without the idle ones at their end. -/
def trimPieces (pieces : List (List Char)) : List (List Char) :=
  (pieces.reverse.dropWhile isIdle).reverse

def ofPieces (start : List Char) (pieces : List (List Char)) : Path :=
  ⟨String.ofList (start ++ ['/'].intercalate pieces)⟩

/-- The folder above. The root and the empty path have none. -/
def parent? (path : Path) : Option Path :=
  let (start, pieces) := path.split
  match trimPieces pieces with
  | [] => if start = ['.'] then some ⟨""⟩ else none
  | pieces => some (ofPieces start (trimPieces pieces.dropLast))

/-- The pieces behind those that lead through `names`. Idle pieces on the way are passed over. -/
def piecesBelow? : (names pieces : List (List Char)) → Option (List (List Char))
  | [], pieces => some pieces
  | _ :: _, [] => none
  | name :: names, piece :: pieces =>
    if isIdle piece then piecesBelow? (name :: names) pieces
    else if piece = name then piecesBelow? names pieces
    else none

/-- The part of a path below a folder with the same start. It neither starts nor ends with an idle piece. -/
def below? (path folder : Path) : Option Path :=
  if path.split.1 = folder.split.1 then
    (piecesBelow? (folder.split.2.filter (!isIdle ·)) path.split.2).map fun pieces =>
      ofPieces [] (trimPieces (pieces.dropWhile isIdle))
  else none

/-- The last piece, unless it leads upward. -/
def fileName? (path : Path) : Option String :=
  match (trimPieces path.split.2).getLast? with
  | none => none
  | some piece => if piece = ['.', '.'] then none else some (String.ofList piece)

/-- A file name cut at its last dot. A name whose only dot is its first character is not cut. -/
def cutName (name : String) : String × Option String :=
  let reversed := name.toList.reverse
  match reversed.dropWhile (· != '.') with
  | [] | ['.'] => (name, none)
  | _ :: stem => (String.ofList stem.reverse, some (String.ofList (reversed.takeWhile (· != '.')).reverse))

def stem? (path : Path) : Option String := path.fileName?.map fun name => (cutName name).1

def extension? (path : Path) : Option String := path.fileName?.bind fun name => (cutName name).2

/-- A path below another one. An absolute path replaces it. -/
def join (folder : Path) (name : String) : Path :=
  if (Path.mk name).isAbsolute || folder.text.isEmpty then ⟨name⟩
  else if folder.text.toList.getLast? = some '/' then ⟨folder.text ++ name⟩
  else ⟨folder.text ++ "/" ++ name⟩

def steps (path : Path) : List PathStep :=
  (splitAtSlashes path.text.toList).filterMap fun piece =>
    if piece.isEmpty then none
    else if piece = ['.'] then some .here
    else if piece = ['.', '.'] then some .up
    else some (.into (String.ofList piece))

def hasNull (path : Path) : Bool := path.text.toList.contains '\x00'

/-- A slash at the end asks for a folder. -/
def endsInSlash (path : Path) : Bool := path.text.toList.getLast? = some '/'

end Path
end Gridbook
