/-!
# Malformed YAML

A text is unreadable because of its bytes, because no lexeme can be read at some place, or because
the lexemes do not fit together. The message names a line for the latter two, unless it is the
first one.
-/
namespace MiniPascal.Yaml

inductive Problem
  | controlCharacter
  | invalidLead
  | incompleteCharacter
  | invalidContinuation
  | overlongCharacter
  | invalidCodePoint
  | incompleteUnit
  | strayLowSurrogate
  | incompletePair
  | missingLowSurrogate
  | noLexeme
  | itemNotAllowed
  | keyNotAllowed
  | valueNotAllowed
  | noColon
  | tooDeep
  | tabInIndentation
  | tabInBlock
  | documentMarkInQuotes
  | endInQuotes
  | unknownEscape
  | noHexadecimal
  | invalidEscapedCode
  | zeroIndentation
  | noCommentOrBreak
  | noAnchorName
  | noExclamationMark
  | noTagName
  | noEscapedOctet
  | invalidEscapedLead
  | invalidEscapedContinuation
  | noClosingAngle
  | noBlankOrBreak
  | noBlank
  | noDirectiveName
  | directiveNameNotAlphabetical
  | unknownDirective
  | noVersionNumber
  | noVersionDot
  | longVersionNumber
  | repeatedVersion
  | otherVersion
  | repeatedTagDirective
  | noDocumentStart
  | noContent
  | noKey
  | noItem
  | noCommaOrBracket
  | noCommaOrBrace
  | undefinedHandle
  | unknownAnchor (name : String)
  deriving Repr, DecidableEq, Inhabited

def Problem.text : Problem → String
  | controlCharacter => "control characters are not allowed"
  | invalidLead => "invalid leading UTF-8 octet"
  | incompleteCharacter => "incomplete UTF-8 octet sequence"
  | invalidContinuation => "invalid trailing UTF-8 octet"
  | overlongCharacter => "invalid length of a UTF-8 sequence"
  | invalidCodePoint => "invalid Unicode character"
  | incompleteUnit => "incomplete UTF-16 character"
  | strayLowSurrogate => "unexpected low surrogate area"
  | incompletePair => "incomplete UTF-16 surrogate pair"
  | missingLowSurrogate => "expected low surrogate area"
  | noLexeme => "found character that cannot start any token"
  | itemNotAllowed => "block sequence entries are not allowed in this context"
  | keyNotAllowed => "mapping keys are not allowed in this context"
  | valueNotAllowed => "mapping values are not allowed in this context"
  | noColon => "could not find expected ':'"
  | tooDeep => "exceeded max depth of 10000"
  | tabInIndentation => "found a tab character that violates indentation"
  | tabInBlock => "found a tab character where an indentation space is expected"
  | documentMarkInQuotes => "found unexpected document indicator"
  | endInQuotes => "found unexpected end of stream"
  | unknownEscape => "found unknown escape character"
  | noHexadecimal => "did not find expected hexdecimal number"
  | invalidEscapedCode => "found invalid Unicode character escape code"
  | zeroIndentation => "found an indentation indicator equal to 0"
  | noCommentOrBreak => "did not find expected comment or line break"
  | noAnchorName => "did not find expected alphabetic or numeric character"
  | noExclamationMark => "did not find expected '!'"
  | noTagName => "did not find expected tag URI"
  | noEscapedOctet => "did not find URI escaped octet"
  | invalidEscapedLead => "found an incorrect leading UTF-8 octet"
  | invalidEscapedContinuation => "found an incorrect trailing UTF-8 octet"
  | noClosingAngle => "did not find the expected '>'"
  | noBlankOrBreak => "did not find expected whitespace or line break"
  | noBlank => "did not find expected whitespace"
  | noDirectiveName => "could not find expected directive name"
  | directiveNameNotAlphabetical => "found unexpected non-alphabetical character"
  | unknownDirective => "found unknown directive name"
  | noVersionNumber => "did not find expected version number"
  | noVersionDot => "did not find expected digit or '.' character"
  | longVersionNumber => "found extremely long version number"
  | repeatedVersion => "found duplicate %YAML directive"
  | otherVersion => "found incompatible YAML document"
  | repeatedTagDirective => "found duplicate %TAG directive"
  | noDocumentStart => "did not find expected <document start>"
  | noContent => "did not find expected node content"
  | noKey => "did not find expected key"
  | noItem => "did not find expected '-' indicator"
  | noCommaOrBracket => "did not find expected ',' or ']'"
  | noCommaOrBrace => "did not find expected ',' or '\x7d'"
  | undefinedHandle => "found undefined tag handle"
  | unknownAnchor name => "unknown anchor '" ++ name ++ "' referenced"

def Problem.isOfBytes : Problem → Bool
  | controlCharacter | invalidLead | incompleteCharacter | invalidContinuation
  | overlongCharacter | invalidCodePoint | incompleteUnit | strayLowSurrogate | incompletePair
  | missingLowSurrogate => true
  | _ => false

/-- A problem with the line that its message names, zero for none. -/
structure Malformed where
  problem : Problem
  line : Nat := 0
  deriving Repr, DecidableEq, Inhabited

namespace Malformed

/-- The line that counts: that of the construct at fault, or that of the fault itself if the
construct starts on the first line. Lines are counted from zero. -/
def lineAtFault (construct fault : Nat) : Nat :=
  if construct = 0 then fault else construct

def ofLexeme (construct fault : Nat) (problem : Problem) : Malformed :=
  let line := lineAtFault construct fault
  { problem, line := if line = 0 then 0 else line + 1 }

def ofStructure (construct fault : Nat) (problem : Problem) : Malformed :=
  { problem, line := lineAtFault construct fault }

/-- A problem that is met behind one that has been put off, which was not between lexemes. A problem
of the bytes has no line of its own and takes that of the earlier one, counted from zero. -/
def behind (m : Malformed) (earlier : Malformed) : Malformed :=
  if !m.problem.isOfBytes then m
  else if earlier.problem.isOfBytes then { m with line := earlier.line }
  else { m with line := earlier.line - 1 }

def message (m : Malformed) : String :=
  if m.line = 0 then "yaml: " ++ m.problem.text
  else "yaml: line " ++ toString m.line ++ ": " ++ m.problem.text

end Malformed

end MiniPascal.Yaml
