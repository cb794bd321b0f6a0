import IgnoreRules.Regex.Printer

/-! # The grammar of source texts

How a source text is read is a matter between texts and trees, with no printer in sight. A text is
spelled by signs, each of which is a character, a class or an operator, and signs make up sequences
and alternatives with the usual precedence. At most one operator of repetition follows an operand.
-/

namespace IgnoreRules

/-- A text that is put together from one part for each entry of a list. -/
inductive Row {α : Type} (R : α → Text → Prop) : List α → Text → Prop
  | nil : Row R [] []
  | cons {a : α} {as : List α} {text rest : Text} (h : R a text) (hrest : Row R as rest) :
    Row R (a :: as) (text ++ rest)

/-- A class as it is read: its members, or what belongs to its members and to another class as well;
or, if it is negated, all other characters. -/
inductive Bracket where
  | union (negated : Bool) (members : List ClassMember)
  | meet (negated : Bool) (members : List ClassMember) (other : Bracket)
  deriving DecidableEq

inductive Leaf where
  | literal (c : Char)
  | any
  | bracket (b : Bracket)
  deriving DecidableEq

inductive Sign where
  | leaf (a : Leaf)
  | textStart | textEnd | opening | bar | closing | star | plus | opt
  deriving DecidableEq

def signTable : List (Sign × Text) := [
  (.leaf .any, ['.']), (.textStart, ['^']), (.textEnd, ['$']), (.opening, ['(', '?', ':']),
  (.bar, ['|']), (.closing, [')']), (.star, ['*']), (.plus, ['+']), (.opt, ['?'])]

def reservedOutside : List Char := ['\\', '.', '+', '*', '?', '(', ')', '|', '[', '{', '^', '$']

def reservedInside : List Char := ['\\', '[', ']', '^', '-', '&', '~']

/-- A character stands for itself, behind a backslash, or for its code point. -/
inductive Spells (reserved : List Char) : Char → Text → Prop
  | plain {c : Char} (h : c ∉ reserved) : Spells reserved c [c]
  | escaped {c : Char} (h : c ∈ operatorChars) : Spells reserved c ['\\', c]
  | code {c : Char} {digits : Text} (hne : digits ≠ []) (h : hexNumber? digits = some c.toNat) :
    Spells reserved c (['\\', 'x', '{'] ++ digits ++ ['}'])

inductive SpellsMember : ClassMember → Text → Prop
  | char {c : Char} {text : Text} (h : Spells reservedInside c text) : SpellsMember (.char c) text
  | range {lo hi : Char} {text text' : Text} (hlo : Spells reservedInside lo text)
    (hhi : Spells reservedInside hi text') (hle : lo ≤ hi) :
    SpellsMember (.range lo hi) (text ++ '-' :: text')

def bracketStart (negated : Bool) : Text := '[' :: if negated then ['^'] else []

/-- A class has at least one member, and another class may follow behind two ampersands. -/
inductive SpellsBracket : Bracket → Text → Prop
  | union {negated : Bool} {members : List ClassMember} {text : Text}
    (h : Row SpellsMember members text) (hne : members ≠ []) :
    SpellsBracket (.union negated members) (bracketStart negated ++ (text ++ [']']))
  | meet {negated : Bool} {members : List ClassMember} {text : Text} {other : Bracket}
    {otherText : Text} (h : Row SpellsMember members text) (hne : members ≠ [])
    (hother : SpellsBracket other otherText) :
    SpellsBracket (.meet negated members other)
      (bracketStart negated ++ (text ++ '&' :: '&' :: (otherText ++ [']'])))

inductive SpellsSign : Sign → Text → Prop
  | literal {c : Char} {text : Text} (h : Spells reservedOutside c text) :
    SpellsSign (.leaf (.literal c)) text
  | bracket {b : Bracket} {text : Text} (h : SpellsBracket b text) :
    SpellsSign (.leaf (.bracket b)) text
  | operator {sign : Sign} {text : Text} (h : (sign, text) ∈ signTable) : SpellsSign sign text

/-- What signs make up: a sequence has pieces, and a piece is an operand with or without a
repetition. -/
inductive Level where
  | operand | piece | sequence | choice

inductive Parses : Level → List Sign → Regex Leaf → Prop
  | leaf (a : Leaf) : Parses .operand [.leaf a] (.atom a)
  | group {signs : List Sign} {r : Regex Leaf} (h : Parses .choice signs r) :
    Parses .operand (.opening :: signs ++ [.closing]) r
  | once {signs : List Sign} {r : Regex Leaf} (h : Parses .operand signs r) :
    Parses .piece signs r
  | star {signs : List Sign} {r : Regex Leaf} (h : Parses .operand signs r) :
    Parses .piece (signs ++ [.star]) (.star r)
  | plus {signs : List Sign} {r : Regex Leaf} (h : Parses .operand signs r) :
    Parses .piece (signs ++ [.plus]) (.plus r)
  | opt {signs : List Sign} {r : Regex Leaf} (h : Parses .operand signs r) :
    Parses .piece (signs ++ [.opt]) (.opt r)
  | textStart : Parses .piece [.textStart] .textStart
  | textEnd : Parses .piece [.textEnd] .textEnd
  | nothing : Parses .sequence [] .empty
  | single {signs : List Sign} {r : Regex Leaf} (h : Parses .piece signs r) :
    Parses .sequence signs r
  | more {signs signs' : List Sign} {r r' : Regex Leaf} (h : Parses .piece signs r)
    (h' : Parses .sequence signs' r') (hne : signs' ≠ []) :
    Parses .sequence (signs ++ signs') (.seq r r')
  | line {signs : List Sign} {r : Regex Leaf} (h : Parses .sequence signs r) :
    Parses .choice signs r
  | either {signs signs' : List Sign} {r r' : Regex Leaf} (h : Parses .sequence signs r)
    (h' : Parses .choice signs' r') : Parses .choice (signs ++ .bar :: signs') (.alt r r')

def Reads (text : Text) (tree : Regex Leaf) : Prop :=
  ∃ signs, Row SpellsSign signs text ∧ Parses .choice signs tree

end IgnoreRules
