import DesignTokens.Config.Metadata
import DesignTokens.Yaml.Reader
/-!
# Settings from files

Settings are read from a YAML file, whose relative directories are seen from the file's own, or
from the metadata of a data directory.  A caller who names neither gets the `tokens.yaml` of the
working directory.
-/

set_option autoImplicit false

namespace DesignTokens

/-- The settings of given data, with relative directories seen from `base`. -/
def Config.ofSettings (given : Datum) (base : Option Path) : Except Failure Config :=
  match Config.ofDatum given with
  | .error problems => .error (.error (.config (.invalid problems)))
  | .ok config =>
    match base with
    | some directory => .ok (config.anchoredAt directory)
    | none => .ok config

/-- The settings of a YAML file. -/
def Config.ofFile (tree : FileTree) (path : Path) : Except Failure Config :=
  match tree.readText path with
  | .error (.file .noEntry) => .error (.error (.config (.fileNotFound path)))
  | .error (.file fault) => .error (.breakdown (.file fault))
  | .error .undecodable => .error (.breakdown .undecodable)
  | .ok text =>
    match Yaml.read text with
    | .error .malformed => .error (.error (.config (.notYaml path)))
    | .error (.scalar fault) => .error (.breakdown (.scalar fault))
    | .ok (.map fields) => Config.ofSettings (.map fields) (some path.parent)
    | .ok _ => .error (.error (.config (.notMapping path)))

/-- Where settings come from: given as they are, in a file, by the metadata of a data directory, or
in the file of the working directory. -/
inductive ConfigOrigin where
  | settings (given : Datum)
  | file (path : Path)
  | dataDirectory (directory : Path)
  | workingDirectory
  deriving Repr, Inhabited

namespace ConfigOrigin

/-- The origin that a caller names: a file wins over a data directory. -/
def ofNames (file dataDir : Option Path) : ConfigOrigin :=
  match file, dataDir with
  | some path, _ => .file path
  | none, some directory => .dataDirectory directory
  | none, none => .workingDirectory

/-- The settings file of the working directory. -/
def defaultFile (tree : FileTree) : Path :=
  tree.workingPath.join (Path.ofString "tokens.yaml")

/-- The settings. -/
def load (origin : ConfigOrigin) (tree : FileTree) : Except Failure Config :=
  match origin with
  | .settings given => Config.ofSettings given none
  | .file path => Config.ofFile tree path
  | .dataDirectory directory => Metadata.config tree directory none none
  | .workingDirectory =>
    match tree.findEntry (defaultFile tree) with
    | .ok true => Config.ofFile tree (defaultFile tree)
    | .ok false => .error (.error (.config .nothingGiven))
    | .error fault => .error (.breakdown (.file fault))

/-- The settings file that loading reads, if it reads one. -/
def sourceFile? (origin : ConfigOrigin) (tree : FileTree) : Option Path :=
  match origin with
  | .file path => some path
  | .workingDirectory => some (defaultFile tree)
  | .settings _ | .dataDirectory _ => none

end ConfigOrigin

end DesignTokens
