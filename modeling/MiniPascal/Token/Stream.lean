import MiniPascal.Diagnostic

/-!
# From bytes to tokens

A cursor stands somewhere in a source text. `Cursor.next` skips white space and comments and reads
one token, or fails: at a character that starts no token it stays, and a comment that is never
closed is consumed. A zero byte ends a comment as the end of the text does.

`Cursor.stream` reads on to the end of the file or to the first failure. The failure is part of the
stream and not of its tokens, because a reader of the stream meets it only after all tokens before
it.
-/
namespace MiniPascal

def isGapByte (b : UInt8) : Bool :=
  b == 0x20 || b == 0x09 || b == 0x0D || b == 0x0A

def isDigitByte (b : UInt8) : Bool :=
  0x30 ≤ b && b ≤ 0x39

def isLetterByte (b : UInt8) : Bool :=
  (0x41 ≤ b && b ≤ 0x5A) || (0x61 ≤ b && b ≤ 0x7A)

def isWordStart (b : UInt8) : Bool :=
  isLetterByte b || b == 0x5F

def isWordByte (b : UInt8) : Bool :=
  isWordStart b || isDigitByte b

def markOfByte? (b : UInt8) : Option Kind :=
  if b = 0x28 then some .openParen
  else if b = 0x29 then some .closeParen
  else if b = 0x3B then some .semicolon
  else if b = 0x2E then some .dot
  else if b = 0x2C then some .comma
  else if b = 0x2B then some .plus
  else if b = 0x2D then some .minus
  else if b = 0x2A then some .star
  else if b = 0x2F then some .slash
  else none

/-- A lexeme as text; lexemes consist of ASCII bytes. -/
def asciiText (bytes : Bytes) : String :=
  String.ofList (bytes.map fun b => Char.ofNat b.toNat)

/-- A place in a source text: the bytes ahead, their position, and the index of the next token. -/
structure Cursor where
  rest : Bytes
  pos : Position
  index : Nat := 0
  deriving Repr, DecidableEq, Inhabited

namespace Cursor

def ofSource (file : String) (source : Bytes) (index : Nat := 0) : Cursor :=
  { rest := source, pos := .start file, index }

/-- Skips white space and comments. `opened` is where the comment around the cursor began, if it
stands in one; the first component of the answer says where an unclosed comment began. -/
def skipFrom (opened : Option Position) (pos : Position) :
    Bytes → Option Position × Position × Bytes
  | [] => (opened, pos, [])
  | b :: rest =>
    match opened with
    | none =>
      if isGapByte b then skipFrom none (pos.advance b) rest
      else if b = 0x7B then skipFrom (some pos) (pos.advance b) rest
      else (none, pos, b :: rest)
    | some start =>
      if b = 0x7D then skipFrom none (pos.advance b) rest
      else if b = 0 then (some start, pos, b :: rest)
      else skipFrom (some start) (pos.advance b) rest

theorem length_skipFrom_le (opened : Option Position) (pos : Position) (bytes : Bytes) :
    (skipFrom opened pos bytes).2.2.length ≤ bytes.length := by
  induction bytes generalizing opened pos with
  | nil => simp [skipFrom]
  | cons b rest ih =>
    unfold skipFrom
    cases opened <;> dsimp only <;> split
    · exact Nat.le_succ_of_le (ih ..)
    · split
      · exact Nat.le_succ_of_le (ih ..)
      · exact Nat.le_refl _
    · exact Nat.le_succ_of_le (ih ..)
    · split
      · exact Nat.le_refl _
      · exact Nat.le_succ_of_le (ih ..)

/-- The kind and the length of the number at the front of some bytes. A fraction needs a digit
after its dot, so that `12.` is a number followed by a dot. -/
def numberAt (bytes : Bytes) : Kind × Nat :=
  let whole := bytes.takeWhile isDigitByte
  match bytes.drop whole.length with
  | 0x2E :: d :: more =>
    if isDigitByte d then
      (.realConst, whole.length + 1 + ((d :: more).takeWhile isDigitByte).length)
    else (.integerConst, whole.length)
  | _ => (.integerConst, whole.length)

def kindOfWord (word : String) : Kind :=
  (Kind.ofWord? word).getD .identifier

def tokenAt? (b : UInt8) (rest : Bytes) : Option (Kind × Option String × Nat) :=
  match markOfByte? b with
  | some kind => some (kind, none, 1)
  | none =>
    if b = 0x3A then
      match rest with
      | 0x3D :: _ => some (.assign, none, 2)
      | _ => some (.colon, none, 1)
    else if isWordStart b then
      let word := b :: rest.takeWhile isWordByte
      some (kindOfWord (asciiText word), some (asciiText word), word.length)
    else if isDigitByte b then
      let (kind, length) := numberAt (b :: rest)
      some (kind, some (asciiText ((b :: rest).take length)), length)
    else none

def afterToken (c : Cursor) (n : Nat) : Cursor :=
  { rest := c.rest.drop n, pos := c.pos.advanceBy (c.rest.take n), index := c.index + 1 }

/-- One attempt to read a token, with the cursor that it leaves. -/
def next (c : Cursor) : Except Diagnostic Token × Cursor :=
  match skipFrom none c.pos c.rest with
  | (some opened, pos, rest) =>
    (.error { cause := .unterminatedComment, pos := opened }, { c with pos, rest })
  | (none, pos, []) =>
    (.ok { kind := .endOfFile, pos, index := c.index }, { c with pos, rest := [] })
  | (none, pos, b :: rest) =>
    let here : Cursor := { c with pos, rest := b :: rest }
    match tokenAt? b rest with
    | some (kind, lexeme, length) =>
      (.ok { kind, lexeme, pos, index := c.index }, here.afterToken length)
    | none =>
      (.error { cause := .invalidCharacter (Text.firstPiece b rest).1.toChar, pos }, here)

theorem numberAt_pos {b : UInt8} (rest : Bytes) (hb : isDigitByte b = true) :
    0 < (numberAt (b :: rest)).2 := by
  unfold numberAt
  dsimp only
  have hw : 0 < ((b :: rest).takeWhile isDigitByte).length := by
    rw [List.takeWhile_cons_of_pos hb]
    exact Nat.succ_pos _
  split
  · split <;> dsimp only <;> omega
  · exact hw

theorem tokenAt?_pos {b : UInt8} {rest : Bytes} {kind : Kind} {lexeme : Option String} {n : Nat}
    (h : tokenAt? b rest = some (kind, lexeme, n)) : 0 < n := by
  unfold tokenAt? at h
  split at h
  · simp_all
    omega
  · split at h
    · split at h <;> simp_all <;> omega
    · split at h
      · simp only [Option.some.injEq, Prod.mk.injEq] at h
        have := h.2.2
        simp only [List.length_cons] at this
        omega
      · split at h
        · next hd =>
          simp only [Option.some.injEq, Prod.mk.injEq] at h
          exact h.2.2 ▸ numberAt_pos rest hd
        · exact absurd h (by simp)

/-- Every token but the end of the file consumes at least one byte. -/
theorem next_shortens {c d : Cursor} {t : Token} (h : c.next = (.ok t, d))
    (hk : t.kind ≠ .endOfFile) : d.rest.length < c.rest.length := by
  have hs := length_skipFrom_le none c.pos c.rest
  unfold next at h
  split at h
  · simp at h
  · simp only [Prod.mk.injEq, Except.ok.injEq] at h
    exact absurd (congrArg Token.kind h.1).symm hk
  · next pos b rest heq =>
    rw [heq] at hs
    dsimp only at h
    split at h
    · next kind lexeme n ht =>
      have hn := tokenAt?_pos ht
      simp only [Prod.mk.injEq] at h
      rw [← h.2]
      simp only [afterToken, List.length_drop, List.length_cons] at hs ⊢
      omega
    · simp at h

end Cursor

/-- How the tokens of a text end: with the end of the file, or where no token could be read. -/
inductive Stop
  | endOfFile (token : Token)
  | failed (diagnostic : Diagnostic)
  deriving Repr, DecidableEq, Inhabited

/-- The tokens of a text, the end of the file apart. -/
structure TokenStream where
  tokens : List Token
  stop : Stop
  deriving Repr, DecidableEq, Inhabited

namespace Cursor

def stream (c : Cursor) : TokenStream :=
  match _hnext : c.next with
  | (.error d, _) => { tokens := [], stop := .failed d }
  | (.ok t, c') =>
    if _hkind : t.kind = .endOfFile then { tokens := [], stop := .endOfFile t }
    else
      let rest := stream c'
      { rest with tokens := t :: rest.tokens }
termination_by c.rest.length
decreasing_by exact next_shortens (by assumption) (by assumption)

/-- The outcomes of exactly `n` attempts to read a token, going on after a failure. -/
def attempts (c : Cursor) : Nat → List (Except Diagnostic Token)
  | 0 => []
  | n + 1 => (c.next).1 :: attempts (c.next).2 n

end Cursor

namespace TokenStream

def ofSource (file : String) (source : Bytes) (index : Nat := 0) : TokenStream :=
  (Cursor.ofSource file source index).stream

/-- The tokens with the end of the file, or the failure that hides it. -/
def toExcept (s : TokenStream) : Except Diagnostic (List Token) :=
  match s.stop with
  | .endOfFile t => .ok (s.tokens ++ [t])
  | .failed d => .error d

/-- The token at the front: it is the end of the file once all others are gone. -/
def head (s : TokenStream) : Except Diagnostic Token :=
  match s.tokens with
  | t :: _ => .ok t
  | [] =>
    match s.stop with
    | .endOfFile t => .ok t
    | .failed d => .error d

/-- The stream without its first token. The end of the file is never used up. -/
def tail (s : TokenStream) : TokenStream :=
  { s with tokens := s.tokens.tail }

def length (s : TokenStream) : Nat := s.tokens.length

end TokenStream

end MiniPascal
