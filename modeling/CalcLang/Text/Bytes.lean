import CalcLang.Fault

/-!
# Texts cut at bytes

Offsets into a text count the bytes of its UTF-8 form. `cutAt` finds what is at such an offset: a
place between two characters, the inside of a character, or nothing because the text is shorter.
Only in the first case the text can be cut there.
-/

namespace CalcLang.Text

/-- The number of bytes of some characters. -/
def byteLength (cs : List Char) : Nat := cs.foldr (fun c n => c.utf8Size + n) 0

@[simp] theorem byteLength_nil : byteLength [] = 0 := rfl

@[simp] theorem byteLength_cons (c : Char) (cs : List Char) :
    byteLength (c :: cs) = c.utf8Size + byteLength cs := rfl

@[simp] theorem byteLength_append (cs ds : List Char) :
    byteLength (cs ++ ds) = byteLength cs + byteLength ds := by
  induction cs with
  | nil => simp
  | cons c cs ih => simp [ih, Nat.add_assoc]

theorem byteLength_eq (cs : List Char) : byteLength cs = (String.ofList cs).utf8ByteSize := by
  induction cs with
  | nil => rfl
  | cons c cs ih =>
    rw [String.ofList_cons, String.utf8ByteSize_append, String.utf8ByteSize_singleton, ← ih]
    rfl

theorem byteLength_toList (text : String) : byteLength text.toList = text.utf8ByteSize := by
  rw [byteLength_eq, String.ofList_toList]

/-- What is at an offset of a text. -/
inductive Cut
  /-- The place between the characters `before` it and the characters `behind` it. -/
  | between (before behind : List Char)
  /-- The inside of a character that takes the bytes from `start` up to `stop`. -/
  | inside (c : Char) (start stop : Nat)
  /-- Nothing: the text has only `length` bytes. -/
  | beyond (length : Nat)
  deriving DecidableEq, Repr

/-- What is `offset` bytes into the characters that follow the first `position` bytes of a text. -/
def cutFrom (position : Nat) : Nat → List Char → Cut
  | 0, cs => .between [] cs
  | _ + 1, [] => .beyond position
  | offset + 1, c :: cs =>
    if offset + 1 < c.utf8Size then .inside c position (position + c.utf8Size)
    else
      match cutFrom (position + c.utf8Size) (offset + 1 - c.utf8Size) cs with
      | .between before behind => .between (c :: before) behind
      | cut => cut

/-- What is at an offset of a text. -/
def cutAt (offset : Nat) (cs : List Char) : Cut := cutFrom 0 offset cs

/-- The characters in front of an offset at which a part of a text is to end. -/
def takeBytes (offset : Nat) (cs : List Char) : Except Fault (List Char) :=
  match cutAt offset cs with
  | .between before _ => .ok before
  | .inside c start stop => .error (.cutInside .stop offset c start stop)
  | .beyond length => .error (.cutBeyond .stop offset length)

/-- The characters behind an offset at which a part of a text is to start. -/
def dropBytes (offset : Nat) (cs : List Char) : Except Fault (List Char) :=
  match cutAt offset cs with
  | .between _ behind => .ok behind
  | .inside c start stop => .error (.cutInside .start offset c start stop)
  | .beyond length => .error (.cutBeyond .start offset length)

/-- The characters between two offsets that are in order. -/
def sliceBytes (start stop : Nat) (cs : List Char) : Except Fault (List Char) := do
  let behind ← dropBytes start cs
  let before ← takeBytes stop cs
  .ok (before.drop (cs.length - behind.length))

end CalcLang.Text
