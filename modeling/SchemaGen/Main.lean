import SchemaGen.CommandLine.Command
/-!
The program: it copies the part of the disk that its command looks at, runs the command on the copy, and carries
the changes over.
-/
namespace SchemaGen.Disk
open CommandLine

def diskPath (l : Location) : String :=
  "/" ++ Text.joinWith "/" l

/-- Copies what a path leads to on the disk, together with the directories around it. -/
def copyPath (tree : FileTree) (path : String) : IO FileTree := do
  try
    let real ← IO.FS.realPath path
    let l := Text.partsOf '/' real.toString
    let copy : Edit Unit ←
      if ← real.isDir then pure (Edit.makeDirectories (diskPath l))
      else do
        let content := Content.ofBytes (← IO.FS.readBinFile real)
        pure do
          Edit.makeDirectories (diskPath l.dropLast)
          Edit.put l (.file content)
    return (copy.run tree).2
  catch _ => return tree

partial def copyFor (command : Command) (tree : FileTree) (known : List String) : IO FileTree := do
  let fresh := ((command.paths tree).flatMap waypoints).eraseDups.filter (!known.contains ·)
  if fresh.isEmpty then return tree
  copyFor command (← fresh.foldlM copyPath tree) (known ++ fresh)

def store (change : Location × Node) : IO Unit :=
  match change with
  | (l, .directory) => IO.FS.createDirAll (diskPath l)
  | (l, .file (.text text)) => IO.FS.writeFile (diskPath l) text
  | (l, .file (.binary bytes)) => IO.FS.writeBinFile (diskPath l) ⟨bytes.toArray⟩

end SchemaGen.Disk

open SchemaGen SchemaGen.CommandLine in
def main (words : List String) : IO UInt32 := do
  let here := Text.partsOf '/' (← IO.FS.realPath ".").toString
  let tree ← match Arguments.read words with
    | .ok arguments => Disk.copyFor (.ofArguments arguments) { here } []
    | .error _ => pure { here }
  let (response, later) := respond words tree
  for change in tree.changes later do
    Disk.store change
  IO.print response.output
  for warning in response.warnings do
    IO.eprintln ("warning: " ++ warning.message)
  IO.eprint response.errors
  return response.code.toUInt32
