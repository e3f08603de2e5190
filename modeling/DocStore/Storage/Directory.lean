import DocStore.Bytes
import DocStore.Dictionary
import DocStore.Step
import DocStore.Storage.Path

/-!
# Directories

A directory keeps files by name. One kind keeps them in memory: an input takes a copy of the file
when it is opened, and an output finds its file by name whenever it passes bytes on. The other kind
keeps them on a disk: inputs and outputs hold on to the file itself, which may lose its name or
change its content meanwhile.

A directory also says how far its medium can be trusted: for some files it may accept or deliver
only so many bytes.
-/

namespace DocStore.Storage

/-- Where the files are. -/
inductive Medium where
  /-- In memory, by name. -/
  | memory (files : Dictionary String Bytes)
  /-- On a disk: names for files, and the content of every file that ever was. -/
  | disk (names : Dictionary String Nat) (contents : Array Bytes)
  deriving Repr

/-- How many bytes of some files the medium accepts and delivers. -/
structure Limits where
  writes : Dictionary String Nat := []
  reads : Dictionary String Nat := []
  deriving Repr

/-- A place for files. -/
structure Directory where
  medium : Medium
  limits : Limits := {}
  deriving Repr

namespace Directory

/-- An empty directory in memory. -/
def inMemory (limits : Limits) : Directory :=
  ⟨.memory [], limits⟩

/-- An empty directory on a disk. -/
def onDisk : Directory :=
  ⟨.disk [] #[], {}⟩

/-! ### Looking names up -/

/-- The entry of a disk that a name leads to, if it is a file. -/
def diskEntry (names : Dictionary String Nat) (name : String) : Except Fault String := do
  match ← Path.locate names.contains name with
  | .here _ => .error (.system .isADirectory)
  | .entry entry slash =>
    if !names.contains entry then .error (.system .notFound)
    else if slash then .error (.system .notADirectory)
    else .ok entry

/-- The entry of a disk under which a name can be given to a file. -/
def diskEntryFor (names : Dictionary String Nat) (name : String) (isNew : Bool) :
    Except Fault String := do
  match ← Path.locate names.contains name with
  | .here dots => .error (.system (if isNew && dots then .alreadyExists else .isADirectory))
  | .entry entry slash =>
    if slash then .error (.system .isADirectory)
    else if isNew && names.contains entry then .error (.system .alreadyExists)
    else .ok entry

/-- The entry that a name leads to, if there is one. -/
def entryOf (d : Directory) (name : String) : Except Fault String :=
  match d.medium with
  | .memory files => if files.contains name then .ok name else .error (.noSuchFile name)
  | .disk names _ => diskEntry names name

/-- The entry under which a name can be given to a file. If `isNew` is set there may be no file of
that name. -/
def entryFor (d : Directory) (name : String) (isNew : Bool) : Except Fault String :=
  match d.medium with
  | .memory files =>
    if isNew && files.contains name then .error (.fileExists name) else .ok name
  | .disk names _ => diskEntryFor names name isNew

/-- The content of an entry. -/
def entryContent? (d : Directory) (entry : String) : Option Bytes :=
  match d.medium with
  | .memory files => files.find? entry
  | .disk names contents => (names.find? entry).bind fun id => contents[id]?

/-- The content of the file that a name leads to. -/
def content? (d : Directory) (name : String) : Option Bytes :=
  (d.entryOf name).toOption.bind d.entryContent?

/-- Does a name lead to a file? -/
def contains (d : Directory) (name : String) : Bool :=
  (d.entryOf name).toBool

/-- All entries, in increasing order. -/
def list (d : Directory) : List String :=
  let names := match d.medium with
    | .memory files => files.keys
    | .disk names _ => names.keys
  names.mergeSort (fun a b => decide (a ≤ b))

/-! ### Whole files -/

/-- A copy of a file's content. -/
def read (name : String) : Step Directory Fault Bytes := fun d =>
  (do
    let entry ← d.entryOf name
    pure ((d.entryContent? entry).getD []), d)

/-- Replace the content of an entry, which is created if need be. -/
def store (entry : String) (content : Bytes) (d : Directory) : Directory :=
  match d.medium with
  | .memory files => { d with medium := .memory (files.insert entry content) }
  | .disk names contents =>
    match names.find? entry with
    | some id => { d with medium := .disk names (contents.setIfInBounds id content) }
    | none =>
      { d with medium := .disk (names.insert entry contents.size) (contents.push content) }

/-- Replace the content of a file, which is created if need be. -/
def put (name : String) (content : Bytes) : Step Directory Fault Unit := fun d =>
  match d.entryFor name false with
  | .ok entry => (.ok (), d.store entry content)
  | .error e => (.error e, d)

/-- Remove an entry. -/
def remove (entry : String) (d : Directory) : Directory :=
  match d.medium with
  | .memory files => { d with medium := .memory (files.erase entry) }
  | .disk names contents => { d with medium := .disk (names.erase entry) contents }

/-- Delete a file. -/
def delete (name : String) : Step Directory Fault Unit := fun d =>
  match d.entryOf name with
  | .ok entry => (.ok (), d.remove entry)
  | .error e => (.error e, d)

/-- Delete files, whether they are there or not. -/
def deleteAll (names : List String) (d : Directory) : Directory :=
  names.foldl (fun d name => (delete name d).2) d

end Directory

end DocStore.Storage
