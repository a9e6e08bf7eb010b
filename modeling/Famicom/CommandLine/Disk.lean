/-!
The files that a run sees: a tree of directories in which the run has a place of its own.

    path ──steps──▶ walk the directories ──▶ a directory, or a name in one ──▶ read or write there

A path is walked step by step, and each step but the last has to end in a directory. What stands in a file's
way is an error with the system's wording. Reading looks at the name before it looks at a slash behind it,
while writing, which may make the file, refuses the slash first.
-/

namespace Famicom

/-- Why a file cannot be read or written. -/
inductive DiskError where
  | notFound
  | notADirectory
  | isADirectory
  | nameTooLong
  | noSpace
  | endless
  | notText
  | other (message : String)
  deriving DecidableEq, Repr, Inhabited

namespace DiskError

/-- The wording of an error. -/
def message : DiskError → String
  | .notFound => "No such file or directory (os error 2)"
  | .notADirectory => "Not a directory (os error 20)"
  | .isADirectory => "Is a directory (os error 21)"
  | .nameTooLong => "File name too long (os error 36)"
  | .noSpace => "No space left on device (os error 28)"
  | .endless => "out of memory"
  | .notText => "stream did not contain valid UTF-8"
  | .other message => message

/-- Whether an error says that the path leads to nothing. -/
def isAbsence : DiskError → Bool
  | .notFound | .notADirectory | .nameTooLong => true
  | _ => false

end DiskError

/-- What reading each path gives. -/
abbrev Reader := String → Except DiskError (List UInt8)

namespace Reader

/-- The content of a file as text. -/
def text (read : Reader) (path : String) : Except DiskError String := do
  let bytes ← read path
  match String.fromUTF8? ⟨bytes.toArray⟩ with
  | some text => return text
  | none => throw .notText

/-- Whether a path leads to something, be it a file that cannot be read. -/
def leads (read : Reader) (path : String) : Bool :=
  match read path with
  | .ok _ => true
  | .error e => !e.isAbsence

end Reader

/-- A place in the tree: the names on the way to it from the root. -/
abbrev Place := List String

/-- What stands at a place. -/
inductive Node where
  | directory
  | file (content : List UInt8)
  /-- Reads as empty, and forgets what is written to it. -/
  | null
  /-- Reads without end, and has no room for a byte. -/
  | full
  deriving Repr, Inhabited

/-- What a file or device gives. -/
def Node.content : Node → Except DiskError (List UInt8)
  | .directory => .error .isADirectory
  | .file content => .ok content
  | .null => .ok []
  | .full => .error .endless

/-- Files by place; the directories are those on the way to them and those that every system has. -/
structure Disk where
  files : List (Place × List UInt8) := []
  deriving Inhabited

/-- Where a path leads: to a directory by a step that is no name, or to a name that its directory may lack. -/
inductive Destination where
  | directory
  | entry (directory : Place) (name : String)
  deriving DecidableEq, Repr, Inhabited

namespace Disk

/-! ### The tree -/

/-- The directory of a run, where a path without a leading slash starts. -/
def home : Place := ["tmp", "run"]

/-- The directories that every system has. -/
def standardDirectories : List Place :=
  [[], ["bin"], ["boot"], ["dev"], ["etc"], ["home"], ["lib"], ["media"], ["mnt"], ["opt"], ["proc"], ["root"],
   ["run"], ["sbin"], ["srv"], ["sys"], ["tmp"], ["usr"], ["var"], ["dev", "shm"], ["usr", "bin"],
   ["usr", "lib"], ["usr", "local"], ["usr", "share"], ["var", "lib"], ["var", "log"], ["var", "tmp"]]

/-- Whether a place is a directory. -/
def isDirectory (disk : Disk) (place : Place) : Bool :=
  standardDirectories.contains place || place.isPrefixOf home ||
    disk.files.any fun file => place.length < file.1.length && place.isPrefixOf file.1

/-- What stands at a place, if anything. -/
def node? (disk : Disk) (place : Place) : Option Node :=
  if disk.isDirectory place then some .directory
  else if place = ["dev", "null"] then some .null
  else if place = ["dev", "full"] then some .full
  else (disk.files.lookup place).map .file

/-- Looks a name up in a directory. -/
def lookUp (disk : Disk) (directory : Place) (name : String) : Except DiskError (Option Node) :=
  if name.utf8ByteSize > 255 then .error .nameTooLong else .ok (disk.node? (directory ++ [name]))

/-! ### Paths -/

/-- The steps of a path: what stands between its slashes. -/
def steps (path : String) : List String := (path.splitOn "/").filter (· != "")

/-- Files by path from the directory of a run. -/
def ofFiles (files : List (String × List UInt8)) : Disk :=
  ⟨files.map fun file => (home ++ steps file.1, file.2)⟩

/-- Walks steps from a directory to a directory. Above the root stands the root. -/
def walk (disk : Disk) (here : Place) : List String → Except DiskError Place
  | [] => .ok here
  | "." :: rest => walk disk here rest
  | ".." :: rest => walk disk here.dropLast rest
  | name :: rest =>
    match disk.lookUp here name with
    | .error e => .error e
    | .ok none => .error .notFound
    | .ok (some .directory) => walk disk (here ++ [name]) rest
    | .ok (some _) => .error .notADirectory

/-- Where a path leads. A path of 4096 bytes is too long whatever it names. -/
def resolve (disk : Disk) (path : String) : Except DiskError Destination :=
  if path.isEmpty then .error .notFound
  else if path.utf8ByteSize ≥ 4096 then .error .nameTooLong
  else
    let way := steps path
    match way.getLast? with
    | none => .ok .directory
    | some last => do
      let directory ← disk.walk (if path.startsWith "/" then [] else home) way.dropLast
      return if last = "." || last = ".." then .directory else .entry directory last

/-! ### Reading and writing -/

/-- The content of a file. A slash behind its name asks for a directory. -/
def read (disk : Disk) : Reader := fun path => do
  match ← disk.resolve path with
  | .directory => throw .isADirectory
  | .entry directory name =>
    match ← disk.lookUp directory name with
    | none => throw .notFound
    | some .directory => throw .isADirectory
    | some node => if path.endsWith "/" then throw .notADirectory else node.content

/-- Puts a file at a place, whatever was there before. -/
def put (disk : Disk) (place : Place) (content : List UInt8) : Disk :=
  ⟨(place, content) :: disk.files.filter (·.1 != place)⟩

/-- Writes a file and makes it if it is not there. -/
def write (disk : Disk) (path : String) (content : List UInt8) : Except DiskError Disk := do
  match ← disk.resolve path with
  | .directory => throw .isADirectory
  | .entry directory name =>
    if path.endsWith "/" then throw .isADirectory
    match ← disk.lookUp directory name with
    | some .directory => throw .isADirectory
    | some .null => return disk
    | some .full => if content.isEmpty then return disk else throw .noSpace
    | some (.file _) | none => return disk.put (directory ++ [name]) content

end Disk

end Famicom
