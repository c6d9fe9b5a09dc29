/-!
# Letter case as far as words in ASCII need it

Keywords such as the names of log levels are compared after a change of case. Outside ASCII only a
few letters have a counterpart inside it, so a change of case that is exact on every text which
comes out as an ASCII word needs those few letters and no larger table.
-/

namespace ReviewRota.Text

/-- Upper case of a letter, exact whenever that upper case is one ASCII letter: besides `a` to `z`
these are the dotless i (U+0131) and the long s (U+017F). -/
def upper (c : Char) : Char :=
  if c = '\u0131' then 'I' else if c = '\u017f' then 'S' else c.toUpper

/-- Lower case of a letter, exact whenever that lower case is one ASCII letter: besides `A` to `Z`
this is the Kelvin sign (U+212A). -/
def lower (c : Char) : Char :=
  if c = '\u212a' then 'k' else c.toLower

/-- The text in upper case, as far as it comes out in ASCII. -/
def upperCase (s : String) : String := s.map upper

/-- The text in lower case, as far as it comes out in ASCII. -/
def lowerCase (s : String) : String := s.map lower

example : upperCase "\u0131nfo" = "INFO" := by decide +kernel

end ReviewRota.Text
