import Chip8.Text.Quoted

/-!
# Chip8.Files

Paths, what they lead to, and what comes of writing to them. Files are seen only through a function
from paths to entries. A listing tells of the current directory; of all that lies around it only
the way up is known, and what every system has at its root.
-/

namespace Chip8

/-- What a path leads to. -/
inductive Entry where
  | file (content : List UInt8)
  | directory
  | missing
  /-- The way leads through a file. -/
  | blocked
  /-- The path, or a name on the way, is longer than a system takes. -/
  | tooLong
  deriving DecidableEq

abbrev Files := String → Entry

/-- Why a file cannot be read or written. -/
inductive FileError where
  | notFound (path : String)
  | notDirectory (path : String)
  | isDirectory (path : String)
  | tooLong (path : String)
  deriving DecidableEq, Repr

def FileError.message : FileError → String
  | notFound path => "[Errno 2] No such file or directory: " ++ Text.quoted path
  | notDirectory path => "[Errno 20] Not a directory: " ++ Text.quoted path
  | isDirectory path => "[Errno 21] Is a directory: " ++ Text.quoted path
  | tooLong path => "[Errno 36] File name too long: " ++ Text.quoted path

namespace Path

/-- The parts between slashes, without the empty ones and single dots. -/
def parts (path : String) : List String :=
  (path.splitOn "/").filter fun p => p ≠ "" ∧ p ≠ "."

/-- The root that a path starts at: two slashes are kept, more count as one. -/
def root (path : String) : String :=
  match path.toList with
  | '/' :: '/' :: '/' :: _ => "/"
  | '/' :: '/' :: _ => "//"
  | '/' :: _ => "/"
  | _ => ""

/-- The path without empty parts and single dots; the empty path is a dot. -/
def normal (path : String) : String :=
  let text := root path ++ "/".intercalate (parts path)
  if text.isEmpty then "." else text

/-- The last part. -/
def name (path : String) : String :=
  (parts path).getLastD ""

/-- The directory that holds what a path leads to. -/
def parent (path : String) : String :=
  normal (root path ++ "/".intercalate (parts path).dropLast)

/-- One part further down, or up again by a double dot; `none` above the top. -/
def enter (here : List String) (part : String) : Option (List String) :=
  if part = ".." then
    if here.isEmpty then none else some here.dropLast
  else some (here ++ [part])

/-- The path without the parts that a double dot takes back; `none` if it leads out of the current
directory. -/
def place? (path : String) : Option String :=
  if root path ≠ "" then none
  else ((parts path).foldlM enter []).map ("/".intercalate ·)

/-- The bytes that a name may have. -/
def maxName : Nat := 255

/-- The bytes that a path may have. -/
def maxPath : Nat := 4095

end Path

namespace Files

/-- Where a path has come to. -/
inductive Location where
  /-- In the current directory or below it. -/
  | inside (parts : List String)
  /-- At a path from the root. -/
  | fromRoot (parts : List String)
  /-- Above the current directory, at a place whose name is not known. -/
  | above
  /-- At something unknown in a directory above. -/
  | beside

/-- The next location behind a part. The root is its own parent. -/
def Location.next : Location → String → Location
  | inside here, p =>
    match Path.enter here p with
    | some here => inside here
    | none => above
  | fromRoot here, p => fromRoot ((Path.enter here p).getD [])
  | above, p => if p = ".." then above else beside
  | beside, _ => beside

/-- The directories at the root of every system. -/
def rootDirectories : List String :=
  ["bin", "boot", "dev", "etc", "home", "lib", "media", "mnt", "opt", "proc", "root", "run",
    "sbin", "srv", "sys", "tmp", "usr", "var"]

/-- What every system has: the root, its directories, and the file that takes all and holds
nothing. -/
def rootEntry : List String → Entry
  | [] => .directory
  | [name] => if rootDirectories.contains name then .directory else .missing
  | ["dev", "null"] => .file []
  | _ => .missing

/-- What lies at a location; `tree` knows the entries of the current directory by their parts. -/
def Location.entry (tree : List String → Entry) : Location → Entry
  | inside parts => tree parts
  | fromRoot parts => rootEntry parts
  | above => .directory
  | beside => .missing

/-- What the parts of a path lead to from a location. -/
def walk (tree : List String → Entry) : Location → List String → Entry
  | here, [] => here.entry tree
  | here, p :: rest =>
    match here.entry tree with
    | .directory =>
      if p = "" ∨ p = "." then walk tree here rest
      else if Path.maxName < p.utf8ByteSize then .tooLong
      else walk tree (here.next p) rest
    | .file _ => .blocked
    | .missing => .missing
    | .blocked => .blocked
    | .tooLong => .tooLong

/-- The entries of a listing of files and directories by path. A name that ends in a slash is a
directory, and so is all that leads to a name. -/
def treeOf (listing : List (String × List UInt8)) (parts : List String) : Entry :=
  match listing.find? fun (name, _) => Path.parts name = parts ∧ !name.endsWith "/" with
  | some (_, content) => .file content
  | none =>
    if parts.isEmpty ∨ listing.any fun (name, _) => parts.isPrefixOf (Path.parts name) then
      .directory
    else .missing

/-- The empty path leads nowhere, and neither does one with a null character. -/
def ofListing (listing : List (String × List UInt8)) : Files := fun path =>
  if path.isEmpty ∨ path.contains '\x00' then .missing
  else if Path.maxPath < path.utf8ByteSize then .tooLong
  else
    walk (treeOf listing) (if path.startsWith "/" then .fromRoot [] else .inside [])
      (path.splitOn "/")

/-- What stands against writing to a path. -/
def refusal? (files : Files) (path : String) : Option FileError :=
  match files path with
  | .file _ => none
  | .directory => some (.isDirectory path)
  | .blocked => some (.notDirectory path)
  | .tooLong => some (.tooLong path)
  | .missing =>
    match files (Path.parent path) with
    | .directory => none
    | _ => some (.notFound path)

end Files
end Chip8
