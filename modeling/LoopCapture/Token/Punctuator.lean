/-! # Punctuators

Operators, brackets and separators, with the reading of the longest one that a text begins with.
A greater-than sign is read alone, because two of them may close two lists of type arguments; where
an operator is wanted it is extended afterwards.
-/

namespace LoopCapture.Token

inductive Punctuator where
  | openBrace | closeBrace | openParen | closeParen | openBracket | closeBracket
  | dot | ellipsis | semicolon | comma | questionDot | colon | question | atSign | arrow | tilde
  | less | greater | lessEq | greaterEq | eqEq | bangEq | eqEqEq | bangEqEq
  | plus | minus | star | starStar | slash | percent | plusPlus | minusMinus
  | shiftLeft | shiftRight | shiftRightUnsigned
  | amp | bar | caret | bang | ampAmp | barBar | questionQuestion
  | eq | plusEq | minusEq | starEq | starStarEq | slashEq | percentEq
  | shiftLeftEq | shiftRightEq | shiftRightUnsignedEq
  | ampEq | barEq | caretEq | barBarEq | ampAmpEq | questionQuestionEq
deriving DecidableEq, Repr, Inhabited

namespace Punctuator

def spelling : Punctuator → String
  | .openBrace => "\x7b" | .closeBrace => "\x7d" | .openParen => "(" | .closeParen => ")"
  | .openBracket => "[" | .closeBracket => "]" | .dot => "." | .ellipsis => "..."
  | .semicolon => ";" | .comma => "," | .questionDot => "?." | .colon => ":" | .question => "?"
  | .atSign => "@" | .arrow => "=>" | .tilde => "~"
  | .less => "<" | .greater => ">" | .lessEq => "<=" | .greaterEq => ">="
  | .eqEq => "==" | .bangEq => "!=" | .eqEqEq => "===" | .bangEqEq => "!=="
  | .plus => "+" | .minus => "-" | .star => "*" | .starStar => "**" | .slash => "/"
  | .percent => "%" | .plusPlus => "++" | .minusMinus => "--"
  | .shiftLeft => "<<" | .shiftRight => ">>" | .shiftRightUnsigned => ">>>"
  | .amp => "&" | .bar => "|" | .caret => "^" | .bang => "!" | .ampAmp => "&&"
  | .barBar => "||" | .questionQuestion => "??"
  | .eq => "=" | .plusEq => "+=" | .minusEq => "-=" | .starEq => "*=" | .starStarEq => "**="
  | .slashEq => "/=" | .percentEq => "%=" | .shiftLeftEq => "<<=" | .shiftRightEq => ">>="
  | .shiftRightUnsignedEq => ">>>=" | .ampEq => "&=" | .barEq => "|=" | .caretEq => "^="
  | .barBarEq => "||=" | .ampAmpEq => "&&=" | .questionQuestionEq => "??="

def isAssignment : Punctuator → Bool
  | .eq | .plusEq | .minusEq | .starEq | .starStarEq | .slashEq | .percentEq | .shiftLeftEq
  | .shiftRightEq | .shiftRightUnsignedEq | .ampEq | .barEq | .caretEq | .barBarEq | .ampAmpEq
  | .questionQuestionEq => true
  | _ => false

/-- The punctuator at the start of a text and the text after it. A question mark before a fraction
such as `.5` stands alone, and a greater-than sign always does. -/
def read? : List Char → Option (Punctuator × List Char)
  | '{' :: r => some (.openBrace, r)
  | '}' :: r => some (.closeBrace, r)
  | '(' :: r => some (.openParen, r)
  | ')' :: r => some (.closeParen, r)
  | '[' :: r => some (.openBracket, r)
  | ']' :: r => some (.closeBracket, r)
  | ';' :: r => some (.semicolon, r)
  | ',' :: r => some (.comma, r)
  | '~' :: r => some (.tilde, r)
  | '@' :: r => some (.atSign, r)
  | ':' :: r => some (.colon, r)
  | '>' :: r => some (.greater, r)
  | '.' :: '.' :: '.' :: r => some (.ellipsis, r)
  | '.' :: r => some (.dot, r)
  | '?' :: '.' :: r =>
    if r.head?.any (·.isDigit) then some (.question, '.' :: r) else some (.questionDot, r)
  | '?' :: '?' :: '=' :: r => some (.questionQuestionEq, r)
  | '?' :: '?' :: r => some (.questionQuestion, r)
  | '?' :: r => some (.question, r)
  | '<' :: '<' :: '=' :: r => some (.shiftLeftEq, r)
  | '<' :: '<' :: r => some (.shiftLeft, r)
  | '<' :: '=' :: r => some (.lessEq, r)
  | '<' :: r => some (.less, r)
  | '=' :: '=' :: '=' :: r => some (.eqEqEq, r)
  | '=' :: '=' :: r => some (.eqEq, r)
  | '=' :: '>' :: r => some (.arrow, r)
  | '=' :: r => some (.eq, r)
  | '!' :: '=' :: '=' :: r => some (.bangEqEq, r)
  | '!' :: '=' :: r => some (.bangEq, r)
  | '!' :: r => some (.bang, r)
  | '+' :: '+' :: r => some (.plusPlus, r)
  | '+' :: '=' :: r => some (.plusEq, r)
  | '+' :: r => some (.plus, r)
  | '-' :: '-' :: r => some (.minusMinus, r)
  | '-' :: '=' :: r => some (.minusEq, r)
  | '-' :: r => some (.minus, r)
  | '*' :: '*' :: '=' :: r => some (.starStarEq, r)
  | '*' :: '*' :: r => some (.starStar, r)
  | '*' :: '=' :: r => some (.starEq, r)
  | '*' :: r => some (.star, r)
  | '/' :: '=' :: r => some (.slashEq, r)
  | '/' :: r => some (.slash, r)
  | '%' :: '=' :: r => some (.percentEq, r)
  | '%' :: r => some (.percent, r)
  | '&' :: '&' :: '=' :: r => some (.ampAmpEq, r)
  | '&' :: '&' :: r => some (.ampAmp, r)
  | '&' :: '=' :: r => some (.ampEq, r)
  | '&' :: r => some (.amp, r)
  | '|' :: '|' :: '=' :: r => some (.barBarEq, r)
  | '|' :: '|' :: r => some (.barBar, r)
  | '|' :: '=' :: r => some (.barEq, r)
  | '|' :: r => some (.bar, r)
  | '^' :: '=' :: r => some (.caretEq, r)
  | '^' :: r => some (.caret, r)
  | _ => none

/-- The operator that a greater-than sign begins, given the text after the sign. -/
def extendGreater : List Char → Punctuator × List Char
  | '>' :: '>' :: '=' :: r => (.shiftRightUnsignedEq, r)
  | '>' :: '>' :: r => (.shiftRightUnsigned, r)
  | '>' :: '=' :: r => (.shiftRightEq, r)
  | '>' :: r => (.shiftRight, r)
  | '=' :: r => (.greaterEq, r)
  | r => (.greater, r)

end Punctuator
end LoopCapture.Token
