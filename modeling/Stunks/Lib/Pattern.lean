/-! Backtracking patterns over text, case-insensitive, as `/…/i` has them. -/

/-- A place in a text: what is before it, nearest first, and what is after it. -/
structure Cursor where
  before : List Char
  after : List Char
  deriving DecidableEq

inductive Pattern
  | char (c : Char)
  /-- `\d+` -/
  | digits
  /-- `\s+` -/
  | spaces
  /-- `.{0,n}`, in UTF-16 code units -/
  | gap (units : Nat)
  /-- `.+` -/
  | anything
  /-- `\b` -/
  | boundary
  | empty
  | seq (p q : Pattern)
  | alt (p q : Pattern)

namespace Pattern

def isLineTerminator (c : Char) : Bool :=
  c = '\n' || c = '\r' || c.val = 0x2028 || c.val = 0x2029

def isSpace (c : Char) : Bool :=
  (9 ≤ c.val && c.val ≤ 13) || c.val = 0x20 || c.val = 0xA0 || c.val = 0x1680 ||
    (0x2000 ≤ c.val && c.val ≤ 0x200A) || isLineTerminator c || c.val = 0x202F ||
    c.val = 0x205F || c.val = 0x3000 || c.val = 0xFEFF

def isWord (c : Char) : Bool := c.isAlphanum || c = '_'

def units (c : Char) : Nat := if c.val < 0x10000 then 1 else 2

def spanFrom (test : Char → Bool) : List Char → List Char → List Cursor
  | _, [] => []
  | before, c :: after =>
    if test c then spanFrom test (c :: before) after ++ [{ before := c :: before, after }] else []

def gapFrom : Nat → List Char → List Char → List Cursor
  | _, before, [] => [{ before, after := [] }]
  | left, before, c :: after =>
    if !isLineTerminator c && units c ≤ left then
      gapFrom (left - units c) (c :: before) after ++ [{ before, after := c :: after }]
    else [{ before, after := c :: after }]

/-- Where a match that begins at a place can end. -/
def ends : Pattern → Cursor → List Cursor
  | char c, cursor =>
    match cursor.after with
    | d :: after => if c.toLower = d.toLower then [{ before := d :: cursor.before, after }] else []
    | [] => []
  | digits, cursor => spanFrom Char.isDigit cursor.before cursor.after
  | spaces, cursor => spanFrom isSpace cursor.before cursor.after
  | gap units, cursor => gapFrom units cursor.before cursor.after
  | anything, cursor => spanFrom (fun c => !isLineTerminator c) cursor.before cursor.after
  | boundary, cursor =>
    if cursor.before.head?.any isWord != cursor.after.head?.any isWord then [cursor] else []
  | empty, cursor => [cursor]
  | seq p q, cursor => (p.ends cursor).flatMap q.ends
  | alt p q, cursor => p.ends cursor ++ q.ends cursor

def text (s : String) : Pattern := s.toList.foldr (fun c p => seq (char c) p) empty

def opt (p : Pattern) : Pattern := alt p empty

def all (ps : List Pattern) : Pattern := ps.foldr seq empty

def any : List Pattern → Pattern
  | [] => empty
  | [p] => p
  | p :: ps => alt p (any ps)

def firstFrom {α : Type} (look : Cursor → Option α) : List Char → List Char → Option α
  | before, [] => look { before, after := [] }
  | before, c :: after =>
    match look { before, after := c :: after } with
    | some a => some a
    | none => firstFrom look (c :: before) after

def first {α : Type} (look : Cursor → Option α) (s : String) : Option α :=
  firstFrom look [] s.toList

def test (p : Pattern) (s : String) : Bool := (first (fun cursor => (p.ends cursor).head?) s).isSome

def captureDigits (p q : Pattern) (s : String) : Option (List Char) :=
  first (fun cursor => ((p.ends cursor).flatMap fun from_ =>
    ((digits.ends from_).filter fun to_ => !(q.ends to_).isEmpty).map fun to_ =>
      (to_.before.take (to_.before.length - from_.before.length)).reverse).head?) s

end Pattern
