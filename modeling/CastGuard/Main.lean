/-
# `CastGuard.Main` — the program on the disk of the machine

The calls of the machine's file system, and the program that uses them.  Nothing is decided here:
each call is handed on, and a call that fails is reported with the words of the system.

The run-time system cannot tell the access rights of a file, so a replaced script has those of a
new file.
-/
import CastGuard.CommandLine

namespace CastGuard.Main

/-- The outcome of a call, with a failure put into the system's words. -/
def reported {α : Type} (act : IO α) : IO (Except IoError α) := do
  try
    return .ok (← act)
  catch e =>
    return .error (.other (toString e))

/-- The answer to a question; a path that cannot be followed answers with `otherwise`. -/
def answered {α : Type} (otherwise : α) (act : IO α) : IO α := do
  try act catch _ => return otherwise

def kindOf (e : IO.FS.DirEntry) : IO Kind := answered .other do
  match (← e.path.symlinkMetadata).type with
  | .dir => return .directory
  | .symlink => return .link
  | _ => return .other

def machine : FileSystem IO Unit where
  isDir path := answered false do
    return ← (← IO.FS.realPath path).isDir
  isFile path := answered false do
    return (← (← IO.FS.realPath path).metadata).type == .file
  isPresent path := answered false do
    -- the entry itself is asked for: `realPath` fails on a link that leads nowhere
    let _ ← (IO.FS.DirEntry.mk "." path).path.symlinkMetadata
    return true
  list path := reported do
    let entries ← (← IO.FS.realPath path).readDir
    entries.toList.mapM fun e => do return ⟨e.fileName, ← kindOf e⟩
  read path := reported (IO.FS.readFile path)
  canonical path := reported do
    return (← IO.FS.realPath path).toString
  rights _ := return .ok ()
  setRights _ _ := return .ok ()
  write path text := reported (IO.FS.writeFile path text)
  rename source dest := reported (IO.FS.rename source dest)
  remove path := reported (IO.FS.removeFile path)

end CastGuard.Main

def main (args : List String) : IO UInt32 := do
  let result ← CastGuard.CommandLine.execute CastGuard.Main.machine args
  IO.print result.output
  return UInt32.ofNat result.exitCode
