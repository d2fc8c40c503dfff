/-!
# What can be wrong with a pattern

Every way in which the text of a pattern can be malformed, with its message. The last one is not
about the text: a pattern may be well formed and still too large.
-/

namespace CallScript.Pattern

/-- Why a pattern is refused. -/
inductive Error
  | tooMuchNesting
  | tooLarge
  -- groups
  | groupUnclosed
  | groupUnopened
  | groupUnfinished
  | lookAround
  | groupNameMissing
  | groupNameInvalid
  | groupNameUnclosed
  | groupNameEmpty
  | groupNameRepeated
  -- inline flags
  | flagsEmpty
  | flagUnknown
  | flagRepeated
  | flagsUnclosed
  | negationRepeated
  | negationDangling
  -- numbers
  | decimalMissing
  | decimalTooLarge
  | hexMissing
  | hexBraceDigit
  | hexBraceUnclosed
  | hexBraceEmpty
  | hexBraceInvalid
  | hexFixedDigit
  | hexFixedUnclosed
  | hexFixedInvalid
  -- escapes
  | escapeUnfinished
  | escapeUnknown
  | backreference
  | unicodeClass
  | boundaryUnfinished
  | boundaryUnclosed
  | boundaryUnknown
  -- repetitions
  | repeatedNothing
  | countedNothing
  | countUnclosed
  | countMinUnclosed
  | countCommaUnclosed
  | countMaxUnclosed
  | countUnexpected
  | countReversed
  -- classes
  | classUnclosed
  | classUnclosedAfterNegation
  | classUnclosedAfterDash
  | classUnclosedAfterBracket
  | classUnclosedAfterItem
  | classEndNotCharacter
  | classItemAssertion
  | classRangeReversed
  | classNested
  | classIntersection
  | classDifference
  | classSymmetricDifference
deriving DecidableEq, Repr

namespace Error

def message : Error → String
  | tooMuchNesting => "pattern has too much nesting"
  | tooLarge => "compiled regex exceeded size limit"
  | groupUnclosed => "found open group without closing ')'"
  | groupUnopened => "found closing ')' without matching '('"
  | groupUnfinished => "expected closing ')', but got end of pattern"
  | lookAround => "look-around is not supported"
  | groupNameMissing => "expected capture group name, but got end of pattern"
  | groupNameInvalid => "invalid group name"
  | groupNameUnclosed => "expected end of capture group name, but got end of pattern"
  | groupNameEmpty => "empty capture group names are not allowed"
  | groupNameRepeated => "duplicate capture group name"
  | flagsEmpty => "empty flag directive '(?)' is not allowed"
  | flagUnknown => "unrecognized inline flag"
  | flagRepeated => "duplicate inline flag is not allowed"
  | flagsUnclosed => "expected ':' or ')' to end inline flags, but got end of pattern"
  | negationRepeated => "inline flag negation cannot be repeated"
  | negationDangling => "inline flags cannot end with negation directive"
  | decimalMissing => "expected decimal number, but found no digits"
  | decimalTooLarge => "got invalid decimal number"
  | hexMissing => "expected hexadecimal number, but saw end of pattern first"
  | hexBraceDigit => "expected hexadecimal number in braces, but got non-hex digit"
  | hexBraceUnclosed => "expected hexadecimal number, but saw end of pattern before closing brace"
  | hexBraceEmpty => "expected hexadecimal number in braces, but got no digits"
  | hexBraceInvalid => "got invalid hexadecimal number in braces"
  | hexFixedDigit => "expected fixed length hexadecimal number, but got non-hex digit"
  | hexFixedUnclosed => "expected fixed length hexadecimal number, but saw end of pattern first"
  | hexFixedInvalid => "got invalid fixed length hexadecimal number"
  | escapeUnfinished =>
    "saw start of escape sequence, but saw end of pattern before it finished"
  | escapeUnknown => "unrecognized escape sequence"
  | backreference => "backreferences are not supported"
  | unicodeClass => "Unicode character classes are not supported"
  | boundaryUnfinished => "found start of special word boundary or repetition without an end"
  | boundaryUnclosed => "special word boundary assertion is unclosed or has an invalid character"
  | boundaryUnknown => "special word boundary assertion is unrecognized"
  | repeatedNothing => "uncounted repetition operator must be applied to a sub-expression"
  | countedNothing => "counted repetition operator must be applied to a sub-expression"
  | countUnclosed => "found unclosed counted repetition operator"
  | countMinUnclosed => "found incomplete and unclosed counted repetition operator"
  | countCommaUnclosed => "found counted repetition operator with a comma that is unclosed"
  | countMaxUnclosed => "found counted repetition with min and max that is unclosed"
  | countUnexpected =>
    "expected closing brace for counted repetition, but got something else"
  | countReversed => "found counted repetition with a min bigger than its max"
  | classUnclosed => "found unclosed character class"
  | classUnclosedAfterNegation => "negated character class has no closing bracket"
  | classUnclosedAfterDash => "non-empty character class has no closing bracket after dash"
  | classUnclosedAfterBracket =>
    "character class begins with literal ']' but has no closing bracket"
  | classUnclosedAfterItem => "non-empty character class has no closing bracket"
  | classEndNotCharacter =>
    "character class ranges must start and end with a single character"
  | classItemAssertion => "invalid escape sequence in character class"
  | classRangeReversed => "invalid range in character class"
  | classNested => "nested character classes are not supported"
  | classIntersection => "character class intersection is not supported"
  | classDifference => "character class difference is not supported"
  | classSymmetricDifference => "character class symmetric difference is not supported"

end Error

end CallScript.Pattern
