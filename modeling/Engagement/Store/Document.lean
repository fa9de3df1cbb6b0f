import Engagement.Fault
import Engagement.Store.Path
import Engagement.Store.Snapshot

/-! # Documents among files

A document is read once and then kept, so that later changes by others are seen only by loading it
again. It is replaced through a temporary sibling: the new text is written there, and then the
sibling is renamed. On the way any file operation may fail.
-/

namespace Engagement

/-- What stands at a place. -/
inductive Disk where
  | absent
  | directory
  | text (content : String)

namespace Disk

def read : Disk → Except Fault Snapshot
  | .absent => .ok .empty
  | .directory => .error .io
  | .text content =>
    if content.isEmpty then .ok .empty
    else match Snapshot.ofText? content with
      | some snapshot => .ok snapshot
      | none => .error .serialization

end Disk

/-- What stands at each place. -/
abbrev Files := String → Disk

namespace Files

def put (files : Files) (place : String) (disk : Disk) : Files :=
  fun other => if other = place then disk else files other

/-- The text at a path that names a file. -/
def text? (files : Files) (path : String) : Option String :=
  match files (Path.place path) with
  | .text content => if Path.namesFile path then some content else none
  | .absent | .directory => none

/-- Reads a snapshot. A file is found only at a path that names one. -/
def read (files : Files) (path : String) : Except Fault Snapshot :=
  match files (Path.place path) with
  | .text content => if Path.namesFile path then Disk.read (.text content) else .error .io
  | disk => disk.read

def write (files : Files) (path text : String) : Except Fault Files :=
  match files (Path.place path) with
  | .directory => .error .io
  | _ => if Path.namesFile path then .ok (files.put path (.text text)) else .error .io

/-- Renames a file, in the place of the one that has the name. A file that keeps its name stays. -/
def rename (files : Files) (source target : String) : Except Fault Files :=
  if !Path.namesFile target then .error .io
  else if source = target then .ok files
  else match files target with
    | .directory => .error .io
    | _ => .ok ((files.put target (files source)).put source .absent)

end Files

/-- A file operation that fails although what stands at its path would let it succeed. -/
inductive Mishap where
  | read
  | makeFolder
  /-- The sibling may have been written in part. -/
  | write (left : Option String)
  | rename
  deriving DecidableEq

/-- A document among files, with what was last read from it or written to it. -/
structure Document where
  path : String
  files : Files
  known : Option Snapshot

namespace Document

variable (d : Document) (mishap : Option Mishap)

def sibling : String := Path.sibling d.path

def contents : Disk := d.files (Path.place d.path)

def read : Except Fault Snapshot :=
  if mishap = some .read then .error .io else d.files.read d.path

/-- The files after the sibling has been written in part, or left alone. -/
def leaving (left : Option String) : Files :=
  (left.bind fun part => (d.files.write d.sibling part).toOption).getD d.files

/-- Replaces the text of the document, with no mishap. -/
def exchange (text : String) : Files × Except Fault Unit :=
  match d.files.write d.sibling text with
  | .error fault => (d.files, .error fault)
  | .ok written =>
    match written.rename d.sibling d.path with
    | .error fault => (written, .error fault)
    | .ok renamed => (renamed, .ok ())

def replace (text : String) : Files × Except Fault Unit :=
  match mishap with
  | some .makeFolder => (d.files, .error .io)
  | some (.write left) => (d.leaving left, .error .io)
  | some .rename => (d.leaving (some text), .error .io)
  | some .read | none => d.exchange text

def load : Document × Except Fault Snapshot :=
  match d.read mishap with
  | .error fault => (d, .error fault)
  | .ok snapshot => ({ d with known := some snapshot }, .ok snapshot)

/-- What a write starts from. -/
def base : Except Fault Snapshot :=
  match d.known with
  | some snapshot => .ok snapshot
  | none => d.read mishap

def write (w : Write) : Document × Except Fault Unit :=
  match d.base mishap with
  | .error fault => (d, .error fault)
  | .ok snapshot =>
    let next := snapshot.apply w
    match d.replace mishap next.text with
    | (files, .error fault) => ({ d with files := files }, .error fault)
    | (files, .ok ()) => ({ d with files := files, known := some next }, .ok ())

/-- The same document, of which nothing is known. -/
def reopen : Document := { d with known := none }

end Document

end Engagement
