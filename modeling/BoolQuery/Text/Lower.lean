/-!
# Lower-casing of names

Names given on the command line are compared without regard to case. All known
names are ASCII, so of Unicode's lower-casing only the part that ends in ASCII
can matter: `A` to `Z`, and the Kelvin sign, which is the one other character
whose lower-case form is an ASCII character by itself.
-/

namespace BoolQuery.Text

/-- The lower-case form of a character, where that form is ASCII. -/
def lowerChar (c : Char) : Char :=
  if c = '\u212a' then 'k' else c.toLower

/-- A name with its characters in lower case, for comparison with an ASCII name. -/
def lower (name : String) : String :=
  name.map lowerChar

end BoolQuery.Text
