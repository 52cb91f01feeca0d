/-!
# Lines

Texts written line by line.
-/

namespace SdfShader.Text

/-- The lines one after the other, each with a line feed behind it. -/
def unlines (lines : List String) : String :=
  String.join (lines.map (· ++ "\n"))

end SdfShader.Text
