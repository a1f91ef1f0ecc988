/-!
# Kinds of tokens

A token is a mark, a name, a quoted text, a number, a reserved word, or the end of the source. The
marks and the reserved words are tables (`Kind.marks`, `Kind.reserved`) that are searched by their
spelling.
-/

namespace Scriptlet

inductive Kind where
  | leftParen | rightParen | leftBrace | rightBrace | leftBracket | rightBracket
  | comma | dot | minus | plus | semicolon | slash | star
  | bang | bangEqual | equal | equalEqual | greater | greaterEqual | less | lessEqual
  | identifier | string | number
  | kwAnd | kwClass | kwElse | kwFalse | kwFun | kwFor | kwNil | kwIf | kwPrint | kwOr
  | kwReturn | kwSuper | kwThis | kwTrue | kwVar | kwWhile
  | eof
deriving DecidableEq

namespace Kind

/-- The spellings of the marks, of one and of two characters. -/
def marks : List (List Char × Kind) :=
  [(['('], leftParen), ([')'], rightParen), (['\x7b'], leftBrace), (['\x7d'], rightBrace),
   (['['], leftBracket), ([']'], rightBracket), ([','], comma), (['.'], dot), (['-'], minus),
   (['+'], plus), ([';'], semicolon), (['/'], slash), (['*'], star), (['!'], bang),
   (['!', '='], bangEqual), (['='], equal), (['=', '='], equalEqual), (['>'], greater),
   (['>', '='], greaterEqual), (['<'], less), (['<', '='], lessEqual)]

def ofMark? (text : List Char) : Option Kind :=
  marks.lookup text

/-- The words that are not names. -/
def reserved : List (String × Kind) :=
  [("and", kwAnd), ("class", kwClass), ("else", kwElse), ("false", kwFalse), ("for", kwFor),
   ("fun", kwFun), ("if", kwIf), ("nil", kwNil), ("or", kwOr), ("print", kwPrint),
   ("return", kwReturn), ("super", kwSuper), ("this", kwThis), ("true", kwTrue), ("var", kwVar),
   ("while", kwWhile)]

def ofReserved? (word : String) : Option Kind :=
  reserved.lookup word

/-- The kind of a word: reserved or a name. -/
def ofWord (word : String) : Kind :=
  (ofReserved? word).getD identifier

/-- All kinds with the names under which descriptions show them. -/
def names : List (Kind × String) :=
  [(leftParen, "LeftParen"), (rightParen, "RightParen"), (leftBrace, "LeftBrace"),
   (rightBrace, "RightBrace"), (leftBracket, "LeftBracket"), (rightBracket, "RightBracket"),
   (comma, "Comma"), (dot, "Dot"), (minus, "Minus"), (plus, "Plus"), (semicolon, "Semicolon"),
   (slash, "Slash"), (star, "Star"), (bang, "Bang"), (bangEqual, "BangEqual"), (equal, "Equal"),
   (equalEqual, "EqualEqual"), (greater, "Greater"), (greaterEqual, "GreaterEqual"),
   (less, "Less"), (lessEqual, "LessEqual"), (identifier, "Identifier"), (string, "String"),
   (number, "Number"), (kwAnd, "And"), (kwClass, "Class"), (kwElse, "Else"), (kwFalse, "False"),
   (kwFun, "Fun"), (kwFor, "For"), (kwNil, "Nil"), (kwIf, "If"), (kwPrint, "Print"), (kwOr, "Or"),
   (kwReturn, "Return"), (kwSuper, "Super"), (kwThis, "This"), (kwTrue, "True"), (kwVar, "Var"),
   (kwWhile, "While"), (eof, "Eof")]

def name (k : Kind) : String :=
  (names.lookup k).getD ""

end Kind

end Scriptlet
