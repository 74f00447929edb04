import Workshop.Text.Lowercase
import Workshop.Text.WhiteSpace

/-!
# Minified text

The short form of compiled rules has no white space and no capitals.
-/

namespace Workshop

/-- Drops all white space and puts everything else into lower case. -/
def minify (text : String) : String :=
  String.ofList
    ((text.toList.filter fun c => !Text.isWhiteSpace c).flatMap Text.lowercase)

end Workshop
