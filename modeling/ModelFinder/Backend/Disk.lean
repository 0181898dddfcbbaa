import ModelFinder.Text.Blank
/-!
The files that clauses are written to: a small tree of directories with texts and devices in
it. A path is followed name by name from the root, or from the working directory if it does
not start with a slash; `.` and the empty name stay where they are and `..` goes up. A path
can be created only in a directory that exists, and its last name must be one that a file
can have.
-/

namespace ModelFinder

/-- What a location holds. Some directories take no new files. A device takes any text
without keeping it, or refuses all. -/
inductive DiskEntry where
  | file (text : String)
  | directory (takesFiles : Bool)
  | device (acceptsText : Bool)
deriving DecidableEq

abbrev Location := List String

structure Disk where
  entries : List (Location × DiskEntry)
  temporaries : Nat

namespace Disk

def workingDirectory : Location := ["work"]

def initial : Disk where
  entries :=
    [([], .directory true), (["work"], .directory true), (["tmp"], .directory true),
      (["dev"], .directory true), (["dev", "null"], .device true),
      (["dev", "zero"], .device true), (["dev", "random"], .device true),
      (["dev", "urandom"], .device true), (["dev", "full"], .device false),
      (["dev", "shm"], .directory true), (["dev", "pts"], .directory false),
      (["proc"], .directory false), (["sys"], .directory false)]
    ++ ["bin", "boot", "etc", "home", "lib", "media", "mnt", "opt", "root", "run", "sbin", "srv",
        "usr", "var"].map (fun name => ([name], .directory true))
    ++ ["bin", "lib", "local", "sbin", "share"].map (fun name => (["usr", name], .directory true))
    ++ ["lib", "log", "tmp"].map (fun name => (["var", name], .directory true))
  temporaries := 0

def entry? (disk : Disk) (location : Location) : Option DiskEntry :=
  (disk.entries.find? fun entry => entry.1 == location).map Prod.snd

def enter? (disk : Disk) (location : Location) : List String → Option Location
  | [] => some location
  | name :: rest =>
    if name == "" || name == "." then disk.enter? location rest
    else if name == ".." then disk.enter? location.dropLast rest
    else
      match disk.entry? (location ++ [name]) with
      | some (.directory _) => disk.enter? (location ++ [name]) rest
      | _ => none

def names (path : String) : List String :=
  (Text.splitAt (· == '/') path.toList).map String.ofList

/-- Names have at most 255 bytes and no null character, and paths fewer than 4096 bytes. -/
def isNameable (path : String) : Bool :=
  path.utf8ByteSize < 4096 && !path.toList.contains '\x00'
    && (names path).all fun name => name.utf8ByteSize ≤ 255

def leadsElsewhere (name : String) : Bool := name == "" || name == "." || name == ".."

/-- The location that a path names, if the directories on the way exist. -/
def locate? (disk : Disk) (path : String) : Option Location :=
  match (names path).getLast? with
  | none => none
  | some name =>
    if leadsElsewhere name || !isNameable path then none
    else
      let start := if path.toList.head? == some '/' then [] else workingDirectory
      (disk.enter? start (names path).dropLast).map (· ++ [name])

def lookup? (disk : Disk) (path : String) : Option DiskEntry :=
  disk.locate? path >>= disk.entry?

def contains (disk : Disk) (path : String) : Bool := (disk.lookup? path).isSome

def put (disk : Disk) (location : Location) (entry : DiskEntry) : Disk :=
  { disk with
    entries := (location, entry) :: disk.entries.filter fun other => other.1 != location }

/-- Lets a path that leads nowhere yet lead to something, if its directory takes it. -/
def add? (disk : Disk) (path : String) (entry : DiskEntry) : Option Disk := do
  let location ← disk.locate? path
  if (disk.entry? location).isSome then none
  else if disk.entry? location.dropLast == some (.directory true) then
    some (disk.put location entry)
  else none

def read? (disk : Disk) (path : String) : Option String :=
  match disk.lookup? path with
  | some (.file text) => some text
  | _ => none

def createNew? (disk : Disk) (path : String) : Option Disk := disk.add? path (.file "")

def makeDirectory? (disk : Disk) (path : String) : Option Disk :=
  disk.add? path (.directory true)

/-- Opens a path for a new text: a file is emptied or created, a device stays. -/
def openEmpty? (disk : Disk) (path : String) : Option Disk := do
  let location ← disk.locate? path
  match disk.entry? location with
  | some (.directory _) => none
  | some (.device _) => some disk
  | some (.file _) => some (disk.put location (.file ""))
  | none => disk.createNew? path

def write? (disk : Disk) (path text : String) : Option Disk := do
  let location ← disk.locate? path
  match disk.entry? location with
  | some (.file _) => some (disk.put location (.file text))
  | some (.device true) => some disk
  | _ => none

def store? (disk : Disk) (path text : String) : Option Disk := do
  (← disk.openEmpty? path).write? path text

def removeFile? (disk : Disk) (path : String) : Option Disk := do
  let location ← disk.locate? path
  match disk.entry? location with
  | none | some (.directory _) => none
  | some _ => some { disk with entries := disk.entries.filter fun other => other.1 != location }

/-- A temporary name that was not given out before. Something may still be there. -/
def temporary (disk : Disk) : String × Disk :=
  (s!"/tmp/clauses-{disk.temporaries}.cnf", { disk with temporaries := disk.temporaries + 1 })

/-- Detours are allowed, but only through directories that exist. -/
example : initial.locate? "//tmp/../tmp/./a.cnf" = some ["tmp", "a.cnf"]
    ∧ initial.locate? "/tmp/b/../a.cnf" = none ∧ initial.locate? "/tmp/a/" = none := by
  decide +kernel

end Disk

end ModelFinder
