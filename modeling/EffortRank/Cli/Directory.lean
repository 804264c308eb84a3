import EffortRank.Cli.FileTree
import EffortRank.Cli.Run

/-!
# A directory in memory

A host whose files are held in memory, so that a run of the program is a function of its input. The
working directory is one of a small system: the usual directories at the root, and the devices.
-/

namespace EffortRank

namespace Cli

/-- A system in memory: its files, the standard input that is left, what was written to the devices
of the standard output and the standard error, and the environment. -/
structure Directory where
  tree : FileTree
  input : String
  output : String
  errors : String
  environment : NameMap String

namespace Directory

def working : Place := ["tmp", "work"]

/-- The directories that are always there. -/
def systemDirectories : List Place :=
  ["bin", "boot", "dev", "etc", "home", "lib", "media", "mnt", "opt", "proc", "root", "run", "sbin",
    "srv", "sys", "tmp", "usr", "var"].map ([·]) ++
  [["dev", "fd"], ["proc", "self"], ["proc", "self", "fd"], ["usr", "bin"], ["usr", "lib"], working]

/-- The devices that are always there. -/
def systemDevices : List (Place × Device) :=
  [(["dev", "null"], .null), (["dev", "full"], .full), (["dev", "stdin"], .input),
    (["dev", "stdout"], .output), (["dev", "stderr"], .errors), (["dev", "fd", "0"], .input),
    (["dev", "fd", "1"], .output), (["dev", "fd", "2"], .errors),
    (["proc", "self", "fd", "0"], .input), (["proc", "self", "fd", "1"], .output),
    (["proc", "self", "fd", "2"], .errors)]

def systemTree : FileTree :=
  ⟨systemDirectories.map (fun place => (place, .directory)) ++
    systemDevices.map fun e => (e.1, .device e.2)⟩

def ofFiles (files : NameMap String) (input : String) (environment : NameMap String) :
    Directory where
  tree := files.entries.foldl (fun t e => t.addFile working e.1 e.2) systemTree
  input := input
  output := ""
  errors := ""
  environment := environment

/-- Reads a file. What is read from the standard input is gone. -/
def read (d : Directory) (path : String) : Except FileError String × Directory :=
  match d.tree.find working path with
  | .error e => (.error e, d)
  | .ok (_, .directory) => (.error .directory, d)
  | .ok (_, .file text) => (.ok text, d)
  | .ok (_, .device .input) => (.ok d.input, { d with input := "" })
  | .ok (_, .device _) => (.ok "", d)

def write (d : Directory) (path text : String) : Except FileError Unit × Directory :=
  match d.tree.target working path with
  | .error e => (.error e, d)
  | .ok place =>
    match d.tree.get? place with
    | some (.device .full) => (.error .noSpace, d)
    | some (.device .null) => (.ok (), d)
    | some (.device .input) => (.ok (), { d with input := d.input ++ text })
    | some (.device .output) => (.ok (), { d with output := d.output ++ text })
    | some (.device .errors) => (.ok (), { d with errors := d.errors ++ text })
    | _ => (.ok (), { d with tree := d.tree.set place (.file text) })

def host : Host (StateM Directory) where
  readFile path := modifyGet fun d => d.read path
  readInput := modifyGet fun d => (.ok d.input, { d with input := "" })
  fileExists path := do return ((← get).tree.find working path).toBool
  writeFile path text := modifyGet fun d => d.write path text
  lookupVariable name := do return (← get).environment.get? name

/-- Runs the program in the directory. What it wrote to the devices of its streams comes before what
it prints at its end. -/
def run (d : Directory) (args : List String) : Outcome × Directory :=
  let (outcome, d) := (Cli.run host args : StateM Directory Outcome).run d
  let printed := outcome.printed
  ({ outcome with printed := ⟨d.output ++ printed.output, d.errors ++ printed.errors⟩ }, d)

end Directory

end Cli

end EffortRank
