import DesignTokens.Css.Value
/-!
# Rules and headers

The text of a rule block, in its two layouts, and of the comment at the head of a file.
-/

set_option autoImplicit false

namespace DesignTokens.Css

/-- A declaration of a custom property. -/
structure Declaration where
  name : String
  value : String
  deriving DecidableEq, Repr, Inhabited

/-- The selector of a mode's block: the default mode holds for the whole document. -/
def modeSelector (defaultMode mode : String) : String :=
  if mode = defaultMode then ":root" else "[data-mode=\"" ++ mode ++ "\"]"

/-- A declaration in the compact layout. -/
def Declaration.compact (d : Declaration) : String :=
  d.name ++ ":" ++ d.value ++ ";"

/-- A declaration on a line of its own. -/
def Declaration.line (d : Declaration) : String :=
  "  " ++ d.name ++ ": " ++ d.value ++ ";"

/-- A rule block. -/
def rule (minify : Bool) (selector : String) (declarations : List Declaration) : String :=
  if minify then
    selector ++ "\x7b" ++ "".intercalate (declarations.map Declaration.compact) ++ "\x7d"
  else
    "\n".intercalate ((selector ++ " \x7b") :: declarations.map Declaration.line ++ ["\x7d"])

/-- A comment on a line of its own. -/
def comment (text : String) : String :=
  "/* " ++ text ++ " */"

/-- The head of a file: its name, a description if it is not empty, and facts about it. -/
def header (fileName description : String) (facts : List (String × String)) : String :=
  let described := if description = "" then [] else [comment description]
  let stated := if facts.isEmpty then [] else
    "/*" :: facts.map (fun fact => " * " ++ fact.1 ++ ": " ++ fact.2) ++ [" */"]
  "\n".intercalate (comment fileName :: described ++ stated) ++ "\n\n"

end DesignTokens.Css
