import PipelineGraph.Text.Surrogate

/-!
# Files and paths

A path is first brought to its normal form, without empty parts and parts that stay where they
are, and is then walked part by part. A walk begins in the present directory or at the root and
goes as far as there are directories. Above and outside the present directory only directories
are known, so a name there leads nowhere.

Names and paths are bounded in bytes. A name is only looked at where the walk arrives at it; the
path as a whole comes first.
-/

namespace PipelineGraph.CommandLine

/-- What a path leads to. -/
inductive FileEntry where
  | directory
  | file (bytes : List UInt8)

/-- Files and directories by their paths in normal form. -/
abbrev Files := List (Text × FileEntry)

/-! ## Paths -/

/-- A path by its parts; the root is written with no, one or two slashes. -/
structure FilePath where
  root : Nat
  parts : List Text
deriving DecidableEq

namespace FilePath

/-- The parts of a text between slashes. -/
def split : Text → List Text
  | [] => [[]]
  | c :: rest =>
    if c = '/' then [] :: split rest
    else
      match split rest with
      | part :: more => (c :: part) :: more
      | [] => [[c]]

/-- The path that a text names, in normal form. -/
def ofText (t : Text) : FilePath where
  root :=
    let slashes := (t.takeWhile (· = CodePoint.ofChar '/')).length
    if slashes = 0 then 0 else if slashes = 2 then 2 else 1
  parts := (split t).filter fun part => part ≠ [] ∧ part ≠ Text.ofString "."

/-- The text of a path. -/
def text (p : FilePath) : Text :=
  if p.root = 0 ∧ p.parts = [] then "."
  else List.replicate p.root (CodePoint.ofChar '/') ++ Text.join "/" p.parts

/-- Whether a path leads through another one to something behind it. -/
def passes (p other : FilePath) : Bool :=
  p.root = other.root && other.parts ≠ p.parts && other.parts.isPrefixOf p.parts

end FilePath

/-! ## Errors -/

/-- Why a file cannot be opened. -/
inductive OpenError where
  | notFound
  | isDirectory
  /-- A part of the path before the last is a file. -/
  | notDirectory
  /-- The path or a name in it has too many bytes. -/
  | tooLong
  /-- The path holds the code point zero. -/
  | holdsNull
  /-- The path holds surrogates that stand for no byte. -/
  | holdsSurrogates (e : Text.EncodeError)
deriving DecidableEq

/-- The message of an error about a path. -/
def OpenError.message (e : OpenError) (path : Text) : Text :=
  match e with
  | notFound => "[Errno 2] No such file or directory: " ++ path.quoted
  | isDirectory => "[Errno 21] Is a directory: " ++ path.quoted
  | notDirectory => "[Errno 20] Not a directory: " ++ path.quoted
  | tooLong => "[Errno 36] File name too long: " ++ path.quoted
  | holdsNull => "embedded null byte"
  | holdsSurrogates e => e.message

/-! ## Bytes -/

/-- Whether a code point stands for a single odd byte of a path. -/
def standsForByte (c : CodePoint) : Bool :=
  0xDC80 ≤ c.val && c.val ≤ 0xDCFF

/-- How many bytes a code point of a path has. -/
def byteCount (c : CodePoint) : Nat :=
  if c.val < 0x80 || standsForByte c then 1
  else if c.val < 0x800 then 2
  else if c.val < 0x10000 then 3
  else 4

/-- How many bytes a text in a path has. -/
def byteLength (t : Text) : Nat :=
  t.foldr (fun c rest => byteCount c + rest) 0

/-- The greatest number of bytes of a name in a path. -/
def maxNameBytes : Nat := 255

/-- The greatest number of bytes of a path. -/
def maxPathBytes : Nat := 4095

/-- What is wrong with the text of a path. -/
def pathError? (path : Text) : Option OpenError :=
  match path.refuse? fun c => c.isSurrogate && !standsForByte c with
  | some e => some (.holdsSurrogates e)
  | none =>
    if path.contains (CodePoint.ofNat 0) then some .holdsNull
    else if maxPathBytes < byteLength path then some .tooLong
    else none

/-! ## Walks -/

/-- A directory that a walk may arrive at. -/
inductive Place where
  /-- The present directory, or one below it by the names that lead there. -/
  | within (names : List Text)
  /-- A directory above the present one or apart from it. -/
  | outside

namespace Place

/-- The place at which the walk along a path begins. -/
def start (p : FilePath) : Place :=
  if p.root = 0 then within [] else outside

/-- The directory above a place. -/
def above : Place → Place
  | within [] => outside
  | within (name :: names) => within (name :: names).dropLast
  | outside => outside

/-- The place that a name leads to; nothing is known by name outside. -/
def path? (place : Place) (name : Text) : Option FilePath :=
  match place with
  | within names => some ⟨0, names ++ [name]⟩
  | outside => none

end Place

/-- What stands under a path: an entry with its name, or a directory that holds one. -/
def entryAt? (named : List (FilePath × FileEntry)) (path : FilePath) : Option FileEntry :=
  named.lookup path <|>
    if named.any fun (name, _) => name.passes path then some .directory else none

/-- The bytes of the file to which the parts of a path lead from a place. -/
def walk (named : List (FilePath × FileEntry)) : Place → List Text → Except OpenError (List UInt8)
  | _, [] => .error .isDirectory
  | place, part :: rest =>
    if part = Text.ofString ".." then walk named place.above rest
    else if maxNameBytes < byteLength part then .error .tooLong
    else
      match place.path? part with
      | none => .error .notFound
      | some path =>
        match entryAt? named path with
        | none => .error .notFound
        | some .directory => walk named (.within path.parts) rest
        | some (.file bytes) => if rest = [] then .ok bytes else .error .notDirectory

/-- Open the file at a path. A path that is named itself needs no walk. -/
def openFile (files : Files) (path : FilePath) : Except OpenError (List UInt8) :=
  let named : List (FilePath × FileEntry) :=
    files.map fun (name, entry) => (FilePath.ofText name, entry)
  match pathError? path.text, named.lookup path with
  | some e, _ => .error e
  | none, some (.file bytes) => .ok bytes
  | none, some .directory => .error .isDirectory
  | none, none => walk named (.start path) path.parts

end PipelineGraph.CommandLine
