import Unqualify.Path
import Unqualify.Text.Slice

/-!
# Generated code

Files that a generator wrote are never analysed.  They are known by the ending of their file
name or by a banner near the top.
-/

namespace Unqualify.Generated

/-- Endings of file names used by generators. -/
def endings : List String := [".designer.cs", ".g.cs", ".g.i.cs", ".generated.cs"]

/-- How many bytes are searched for a banner. -/
def bannerWindow : Nat := 1024

/-- The banner of a generator. -/
def banner : String := "<auto-generated"

/-- Whether a file name has a generator's ending, in upper or lower case.  Lower-casing ASCII
letters is enough: the letters of the endings are the lower case of no other character, except
for the dotted capital I, whose lower case puts a combining dot between the `i` and what
follows and so completes no ending. -/
def hasEnding (name : String) : Bool :=
  let lower := String.ofList (name.toList.map Char.toLower)
  endings.any (Text.endsWith lower)

/-- Whether a text has a banner in the whole characters among its first bytes. -/
def hasBanner (text : String) : Bool :=
  Text.occursIn banner.toList (Text.takeBytes text bannerWindow).toList

/-- Whether a file is generated. -/
def isGenerated (path text : String) : Bool :=
  (Path.fileName? path).any hasEnding || hasBanner text

end Unqualify.Generated
