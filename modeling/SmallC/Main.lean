import SmallC.Command

/-!
# The program

Reads the files that the command may need, runs it on them, and carries out what it has done to
them. Programs other than those that are known cannot be run.
-/

namespace SmallC.Main

def nameOf (t : Text) : String := String.ofList (Text.chars t)

def read? (name : Text) : IO (Option Text) := do
  try
    return some (← IO.FS.readBinFile (nameOf name)).toList
  catch _ => return none

/-- Reads what is wanted and has not been tried, until nothing new is wanted. -/
partial def gather (args : List Text) (files : Files) (tried : List Text) : IO Files := do
  let new := ((Command.wanted files args).filter fun name => !tried.contains name).eraseDups
  if new.isEmpty then return files
  let mut files := files
  for name in new do
    if let some content ← read? name then
      files := files.put name content
  gather args files (tried ++ new)

def store (before after : Files) : IO Unit := do
  for name in after.names do
    match after.find? name with
    | some content =>
      if before.find? name ≠ some content then
        IO.FS.writeBinFile (nameOf name) (ByteArray.mk content.toArray)
    | none =>
      try IO.FS.removeFile (nameOf name) catch _ => pure ()

end SmallC.Main

open SmallC SmallC.Main in
def main (args : List String) : IO UInt32 := do
  let args := args.map Text.ofString
  let files ← gather args (Files.ofList .disk []) []
  let outcome := Command.run Tools.known files args
  store files outcome.files
  (← IO.getStdout).write (ByteArray.mk outcome.stdout.toArray)
  (← IO.getStderr).write (ByteArray.mk outcome.stderr.toArray)
  return outcome.status
