import DSigMatcher.Base.Text

namespace DSigMatcher.Base

/-- `sub_<ea>`: the name IDA gives a function without one. -/
def isAutoNamed (name : Text) : Bool := startsWith name (text "sub_")

def isNullSub (name : Text) : Bool := startsWith name (text "nullsub")

/-- Every name IDA generates on its own, and the empty or `...` name. -/
def isPlaceholderName (name : Text) : Bool :=
  name.isEmpty || name == text "..." || isAutoNamed name || isNullSub name ||
    startsWith name (text "j_") || startsWith name (text "unknown_libname_") ||
    name == text "DllEntryPoint" || name == text "start"

/-- A real name: a label a user or a PDB gave the function. -/
def isPortableSymbol (name : Text) : Bool := !isPlaceholderName name

/-- Description of the shortcut that pairs two stripped builds by address. -/
def strippedDescription : Text := text "Same binary with symbols stripped"

end DSigMatcher.Base
