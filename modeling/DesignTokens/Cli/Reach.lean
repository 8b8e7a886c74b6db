import DesignTokens.Cli.Command
/-!
# What a request reaches

The paths that serving a request reads or writes, and the time that serving it took.  Whoever runs
the command on a disk copies these paths into a file tree and writes back what has changed there.
-/

set_option autoImplicit false

namespace DesignTokens.Cli

/-- The paths that the settings of a request are read from. -/
def Request.settingsPaths (request : Request) (tree : FileTree) : List Path :=
  match request.origin with
  | .dataDirectory directory => [directory.join (Path.ofString Metadata.fileName)]
  | origin => (origin.sourceFile? tree).toList

/-- The paths that a build with given settings reads or writes. -/
def Request.buildPaths (request : Request) (config : Config) : List Path :=
  [config.dataDir, request.outputDir.getD config.outputDir] ++ config.sourcePaths

/-- The paths that a build reads or writes with the settings that a tree holds, if it holds any. -/
def Request.pathsIn (request : Request) (tree : FileTree) : List Path :=
  match request.origin.load tree with
  | .ok config => request.buildPaths config
  | .error _ => []

/-- A log line with the time that a run took, in place of none. -/
def timedLine (tenths : Nat) (line : LogLine) : LogLine :=
  if line.message = Report.elapsedLine 0 then { line with message := Report.elapsedLine tenths }
  else line

/-- An answer on standard output with the time that a run took. -/
def timedJson (tenths : Nat) : Json → Json
  | .obj fields =>
    .obj (fields.map fun (key, value) =>
      match key, value with
      | "report", .obj report =>
        (key, .obj (report.map fun field =>
          if field.1 = (Report.elapsedField 0).1 then Report.elapsedField tenths else field))
      | _, _ => (key, value))
  | other => other

end DesignTokens.Cli
