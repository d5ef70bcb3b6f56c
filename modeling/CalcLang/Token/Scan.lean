import CalcLang.Text.Blank
import CalcLang.Text.Bytes
import CalcLang.Token

/-!
# Scanning

`Token.scan` divides a text into tokens. It never fails: what is no token of the language becomes
a token of kind `TokenKind.error`. White space between tokens is dropped, comments are tokens,
and the list ends with one token of kind `TokenKind.eof`.

`munch` is the rule for a single token. Its result always splits the characters that it was
given (`munch_taken_append_rest`), which is why scanning ends and loses nothing.
-/

namespace CalcLang

namespace Token

/-- Whether a name may start with `c`. Names go into C, so they are ASCII. -/
def isNameStart (c : Char) : Bool := c.isAlpha || c == '_'

/-- Whether a name may go on with `c`. -/
def isNameChar (c : Char) : Bool := c.isAlphanum || c == '_'

theorem isNameChar_of_isDigit {c : Char} (h : c.isDigit) : isNameChar c := by
  simp [isNameChar, Char.isAlphanum, h]

theorem isNameChar_of_isNameStart {c : Char} (h : isNameStart c) : isNameChar c := by
  simp only [isNameStart, Bool.or_eq_true] at h
  simp only [isNameChar, Char.isAlphanum, Bool.or_eq_true]
  exact h.imp_left .inl

/-- A token that starts with a given character: its kind, the characters that it takes beside
the first one, and those that it leaves. -/
structure Munch where
  kind : TokenKind
  taken : List Char
  rest : List Char

namespace Munch

/-- A token of one character. -/
def single (kind : TokenKind) (cs : List Char) : Munch := ⟨kind, [], cs⟩

/-- A token that goes on as long as its characters satisfy `p`. -/
def run (kind : TokenKind) (p : Char → Bool) (cs : List Char) : Munch :=
  ⟨kind, cs.takeWhile p, cs.dropWhile p⟩

/-- A token of two characters if `second` follows, else one of a single character. -/
def either (second : Char) (double lone : TokenKind) : List Char → Munch
  | [] => single lone []
  | c :: cs => if c = second then ⟨double, [c], cs⟩ else single lone (c :: cs)

/-- The rest of a number. Digits that run into a name are one malformed token, not a number
followed by a name. -/
def number (cs : List Char) : Munch :=
  match cs.dropWhile Char.isDigit with
  | [] => run .intLiteral Char.isDigit cs
  | c :: _ =>
    if isNameChar c then run .error isNameChar cs else run .intLiteral Char.isDigit cs

/-- The rest of a name or keyword that starts with `c`. -/
def name (c : Char) (cs : List Char) : Munch :=
  run ((TokenKind.keyword? (String.ofList (c :: cs.takeWhile isNameChar))).getD .ident)
    isNameChar cs

end Munch

/-- Whether `cs` starts with a digit. -/
def startsWithDigit : List Char → Bool
  | [] => false
  | c :: _ => c.isDigit

/-- The token that starts with `c`, when the characters `cs` follow. -/
def munch (c : Char) (cs : List Char) : Munch :=
  match c with
  | '(' => .single .leftParen cs
  | ')' => .single .rightParen cs
  | '+' => .single .plus cs
  | '*' => .single .star cs
  | '/' => .single .slash cs
  | '%' => .single .percent cs
  | '-' => if startsWithDigit cs then .number cs else .single .minus cs
  | '=' => .either '=' .eqEq .eq cs
  | '!' => .either '=' .notEq .bang cs
  | '<' => .either '=' .ltEq .lt cs
  | '>' => .either '=' .gtEq .gt cs
  | '&' => .either '&' .ampAmp .error cs
  | '|' => .either '|' .pipePipe .error cs
  | ';' => .run .comment (· != '\n') cs
  | c =>
    if c.isDigit then .number cs
    else if isNameStart c then .name c cs
    else .single .error cs

/-! ## Nothing is lost -/

theorem Munch.run_taken_append_rest (kind : TokenKind) (p : Char → Bool) (cs : List Char) :
    (run kind p cs).taken ++ (run kind p cs).rest = cs :=
  List.takeWhile_append_dropWhile

theorem Munch.either_taken_append_rest (second : Char) (double lone : TokenKind)
    (cs : List Char) : (either second double lone cs).taken ++
      (either second double lone cs).rest = cs := by
  cases cs with
  | nil => rfl
  | cons c cs =>
    simp only [either]
    split <;> rfl

theorem Munch.number_taken_append_rest (cs : List Char) :
    (number cs).taken ++ (number cs).rest = cs := by
  unfold number
  split
  · exact run_taken_append_rest ..
  · split <;> exact run_taken_append_rest ..

/-- A token and what it leaves make up what it was cut from. -/
theorem munch_taken_append_rest (c : Char) (cs : List Char) :
    (munch c cs).taken ++ (munch c cs).rest = cs := by
  unfold munch
  split <;> try rfl
  all_goals first
    | exact Munch.either_taken_append_rest ..
    | exact Munch.run_taken_append_rest ..
    | skip
  · split
    · exact Munch.number_taken_append_rest cs
    · rfl
  · split
    · exact Munch.number_taken_append_rest cs
    · split
      · exact Munch.run_taken_append_rest ..
      · rfl

theorem munch_rest_length_le (c : Char) (cs : List Char) :
    (munch c cs).rest.length ≤ cs.length := by
  have h := congrArg List.length (munch_taken_append_rest c cs)
  rw [List.length_append] at h
  omega

/-! ## Whole texts -/

/-- The tokens of a text whose first character is at the byte offset `offset`. -/
def scanFrom (offset : Nat) : List Char → List Token
  | [] => [⟨.eof, ⟨offset, offset⟩, ""⟩]
  | c :: cs =>
    if Text.isBlank c then scanFrom (offset + c.utf8Size) cs
    else
      let m := munch c cs
      let stop := offset + c.utf8Size + Text.byteLength m.taken
      ⟨m.kind, ⟨offset, stop⟩, String.ofList (c :: m.taken)⟩ :: scanFrom stop m.rest
termination_by cs => cs.length
decreasing_by
  · simp
  · have := munch_rest_length_le c cs
    simp only [List.length_cons]
    omega

/-- The tokens of a text, comments and the final `TokenKind.eof` included. -/
def scan (text : String) : List Token := scanFrom 0 text.toList

end Token

end CalcLang
