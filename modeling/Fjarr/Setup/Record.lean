/-
Fjarr.Setup.Record — the record of what setup changed (fjarr-setup,
changes.rs), and `setup --undo` (undo.rs).

A `Disk` is the files, the copies kept of replaced files, and the saved
record. A copy is indexed by the path of the file it was taken from, so the
names of copies are distinct and no file's path. The contents of a file are
of any type; the configuration is parsed and printed by a `Toml`, and what
does not parse makes a command fail and is left out. So are changes other
than files and configuration values, the directories of drop-ins, and what
runs after an undo.

`writeFileAt n` and `undoAt n` are the disk after the first `n` operations
of a command: setup interrupted there. `heal_backup` decides on the record
in memory, which is saved last.
-/
import Fjarr.Setup.Config
import Fjarr.Lib.Transition

namespace Fjarr.Setup

open Lib

/-- The documents the code prints: what was read, with keys set, and put back
to what a set found. -/
inductive Printed {C V : Type} (parse : C → Doc V) : Doc V → Prop
  | read (c : C) : Printed parse (parse c)
  | set {table key new doc r} (h : Printed parse doc)
      (hset : setCapValue table key new doc = some r) : Printed parse r.1
  | restore {table key new previous doc was r} (h : Printed parse doc) (hwas : Printed parse was)
      (hset : setCapValue table key new was = some (r, previous)) :
      Printed parse (restoreCapValue table key previous doc)

/-- How the configuration is read and written. -/
structure Toml (C V : Type) where
  parse : C → Doc V
  print : Doc V → C
  parse_print : ∀ doc, Printed parse doc → parse (print doc) = doc

inductive Change (V : Type) where
  /-- A file written; whether there is a copy of what was there before. -/
  | file (path : String) (backup : Bool)
  /-- One key of a capability's table set, and its former value. -/
  | configValue (file : String) (table key : List Char) (previous : Option (Doc V))

/-- The same file, or the same key. -/
def Change.same {V : Type} : Change V → Change V → Bool
  | .file p _, .file q _ => p = q
  | .configValue f t k _, .configValue g u l _ => f = g && t = u && k = l
  | _, _ => false

structure Entry (V : Type) where
  feature : String
  change : Change V

structure Disk (C V : Type) where
  files : String → Option C
  copies : String → Option C := fun _ => none
  record : List (Entry V) := []

variable {C V : Type}

/-! ## Recording -/

/-- `Record::add`. -/
def Entry.addTo (e : Entry V) (record : List (Entry V)) : List (Entry V) :=
  if record.any fun e' => e'.feature = e.feature && e'.change.same e.change then record
  else record ++ [e]

/-- The change is that of a feature's file, and whether it has a copy. -/
def Entry.isFile (e : Entry V) (feature path : String) : Option Bool :=
  match e.change with
  | .file p backup => if e.feature = feature ∧ p = path then some backup else none
  | .configValue .. => none

/-- The recorded file of a feature. -/
def recorded (record : List (Entry V)) (feature path : String) : Option Bool :=
  record.findSome? (·.isFile feature path)

namespace Disk

variable (toml : Toml C V) (d : Disk C V)

/-- `heal_backup`, with the record in memory. -/
def healBackup [DecidableEq C] (d : Disk C V) (feature path : String) (contents : C)
    (ours : C → Bool) : Disk C V :=
  if recorded d.record feature path = some true ∧ d.copies path = none then
    match d.files path with
    | some now =>
      if now = contents ∨ ours now then d
      else { d with copies := Function.update d.copies path (some now) }
    | none =>
      { d with record := d.record.map fun e =>
          if (e.isFile feature path).isSome then { e with change := .file path false } else e }
  else d

/-- `write_file` and the record's save, after `n` operations: healing a copy,
keeping one, writing the file, saving. -/
def writeFileAt [DecidableEq C] (n : Nat) (d : Disk C V) (feature path : String) (contents : C)
    (ours : C → Bool) : Disk C V :=
  let healed := d.healBackup feature path contents ours
  let already := (recorded healed.record feature path).isSome
  let backup := !already && (d.files path).isSome
  let copies := if backup then Function.update healed.copies path (d.files path) else healed.copies
  { files := if 3 ≤ n then Function.update d.files path (some contents) else d.files
    copies := if 2 ≤ n then copies else if 1 ≤ n then healed.copies else d.copies
    record :=
      if 4 ≤ n then Entry.addTo { feature, change := .file path backup } healed.record
      else d.record }

def writeFile [DecidableEq C] (d : Disk C V) (feature path : String) (contents : C)
    (ours : C → Bool) : Disk C V :=
  d.writeFileAt 4 feature path contents ours

/-- A key set in the configuration and recorded. -/
def setValue (feature file : String) (table key : List Char)
    (new : V) : Option (Disk C V) :=
  (d.files file).bind fun c =>
  (setCapValue table key new (toml.parse c)).map fun r =>
    { d with
      files := Function.update d.files file (some (toml.print r.1))
      record := Entry.addTo { feature, change := .configValue file table key r.2 } d.record }

/-! ## Undoing -/

/-- A file with other contents, or none. -/
def put (path : String) (contents : Option C) : Disk C V :=
  { d with files := Function.update d.files path contents }

/-- A key put back in the configuration, where there is one. -/
def restoreValue (table key : List Char) (previous : Option (Doc V)) (c : C) :
    C :=
  toml.print (restoreCapValue table key previous (toml.parse c))

/-- `undo_one` up to the removal of the copy; `none` where the copy is gone. -/
def restoreOne : Change V → Option (Disk C V)
  | .file path true => (d.copies path).map fun c => d.put path (some c)
  | .file path false => some (d.put path none)
  | .configValue file table key previous =>
    some (d.put file ((d.files file).map (restoreValue toml table key previous)))

/-- The copy is removed. -/
def dropCopy : Change V → Disk C V
  | .file path true => { d with copies := Function.update d.copies path none }
  | _ => d

/-- `undo_one`. -/
def undoOne (change : Change V) : Option (Disk C V) :=
  (d.restoreOne toml change).map (·.dropCopy change)

/-- One turn of `undo`'s loop: the change, and the changes that failed. -/
def undoEntry (rest todo failed : List (Entry V)) (e : Entry V)
    (d : Disk C V) : Disk C V × List (Entry V) :=
  let failed := if (d.undoOne toml e.change).isSome then failed else e :: failed
  ({ (d.undoOne toml e.change).getD d with record := rest ++ todo.reverse ++ failed }, failed)

/-- `undo`'s loop over a feature's changes, newest first, after `n`
operations: of each change restoring it, removing its copy, saving the
record. -/
def undoLoopAt (toml : Toml C V) (rest : List (Entry V)) :
    Nat → List (Entry V) → List (Entry V) → Disk C V → Disk C V
  | 0, _, _, d => d
  | _, [], _, d => d
  | 1, e :: _, _, d => (d.restoreOne toml e.change).getD d
  | 2, e :: _, _, d => (d.undoOne toml e.change).getD d
  | n + 3, e :: todo, failed, d =>
    undoLoopAt toml rest n todo (undoEntry toml rest todo failed e d).2
      (undoEntry toml rest todo failed e d).1

/-- The changes of a feature, newest first. -/
def mine (feature : String) : List (Entry V) :=
  (d.record.filter (·.feature = feature)).reverse

def others (feature : String) : List (Entry V) :=
  d.record.filter (·.feature ≠ feature)

/-- `undo` of a feature after `n` operations. -/
def undoAt (n : Nat) (d : Disk C V) (feature : String) : Disk C V :=
  undoLoopAt toml (d.others feature) n (d.mine feature) [] d

/-- `undo` of a feature. -/
def undo (feature : String) : Disk C V :=
  d.undoAt toml (3 * (d.mine feature).length) feature

theorem undoLoopAt_nil (rest : List (Entry V)) (n : Nat)
    (failed : List (Entry V)) (d : Disk C V) : undoLoopAt toml rest n [] failed d = d := by
  cases n <;> rfl

end Disk

end Fjarr.Setup
