import Bindery.Text.Quoted

/-!
# UTF-8

Bytes are read as a sequence of units.  A unit is a well-formed character or an ill-formed
stretch: the longest beginning of a character that the bytes follow, or one byte that begins
none.  Every byte belongs to exactly one unit: `Utf8.flatMap_bytes_units`.

* `Utf8.decode` refuses the first ill-formed stretch and says where and why.
* `Utf8.decodeReplacing` writes U+FFFD for each ill-formed stretch.
* `Utf8.encode` writes the bytes of a text.
-/

namespace Bindery.Utf8

/-- What is wrong with an ill-formed stretch. -/
inductive Flaw
  /-- No character begins with this byte. -/
  | startByte
  /-- The next byte does not continue the character begun. -/
  | continuationByte
  /-- The bytes end within a character. -/
  | endOfData
  deriving DecidableEq, Repr

/-- A unit of a byte sequence. -/
inductive Unit
  | scalar (c : Char) (bytes : List UInt8)
  | illFormed (flaw : Flaw) (bytes : List UInt8)
  deriving Repr

/-- The bytes that a unit was read from. -/
def Unit.bytes : Unit → List UInt8
  | .scalar _ bs => bs
  | .illFormed _ bs => bs

/-! ## One unit -/

/-- Whether a byte continues a character. -/
def isContinuation (b : UInt8) : Bool :=
  0x80 ≤ b && b < 0xc0

/-- The payload of a continuation byte. -/
def payload (b : UInt8) : Nat :=
  b.toNat % 0x40

/-- Whether `b` may stand second after a first byte `a`: overlong forms, surrogates and code
points above U+10FFFF are refused here. -/
def isSecond (a b : UInt8) : Bool :=
  if a = 0xe0 then 0xa0 ≤ b && b < 0xc0
  else if a = 0xed then 0x80 ≤ b && b < 0xa0
  else if a = 0xf0 then 0x90 ≤ b && b < 0xc0
  else if a = 0xf4 then 0x80 ≤ b && b < 0x90
  else isContinuation b

/-- The unit that begins with a byte, given the bytes after it. -/
def unitAt (a : UInt8) (r : List UInt8) : Unit :=
  if a < 0x80 then .scalar (Char.ofNat a.toNat) [a]
  else if a < 0xc2 then .illFormed .startByte [a]
  else if a < 0xe0 then
    match r with
    | [] => .illFormed .endOfData [a]
    | b :: _ =>
      if isSecond a b then .scalar (Char.ofNat (a.toNat % 0x20 * 0x40 + payload b)) [a, b]
      else .illFormed .continuationByte [a]
  else if a < 0xf0 then
    match r with
    | [] => .illFormed .endOfData [a]
    | b :: r =>
      if isSecond a b then
        match r with
        | [] => .illFormed .endOfData [a, b]
        | c :: _ =>
          if isContinuation c then
            .scalar (Char.ofNat (a.toNat % 0x10 * 0x1000 + payload b * 0x40 + payload c)) [a, b, c]
          else .illFormed .continuationByte [a, b]
      else .illFormed .continuationByte [a]
  else if a < 0xf5 then
    match r with
    | [] => .illFormed .endOfData [a]
    | b :: r =>
      if isSecond a b then
        match r with
        | [] => .illFormed .endOfData [a, b]
        | c :: r =>
          if isContinuation c then
            match r with
            | [] => .illFormed .endOfData [a, b, c]
            | d :: _ =>
              if isContinuation d then
                .scalar
                  (Char.ofNat (a.toNat % 0x8 * 0x40000 + payload b * 0x1000 + payload c * 0x40 +
                    payload d))
                  [a, b, c, d]
              else .illFormed .continuationByte [a, b, c]
          else .illFormed .continuationByte [a, b]
      else .illFormed .continuationByte [a]
  else .illFormed .startByte [a]

/-- A unit's bytes are a beginning of the bytes it is read from. -/
theorem bytes_unitAt (a : UInt8) (r : List UInt8) :
    ∃ front rest, (unitAt a r).bytes = a :: front ∧ r = front ++ rest := by
  unfold unitAt
  repeat' split
  all_goals first
    | exact ⟨[], _, rfl, rfl⟩
    | exact ⟨[_], _, rfl, rfl⟩
    | exact ⟨[_, _], _, rfl, rfl⟩
    | exact ⟨[_, _, _], _, rfl, rfl⟩

/-! ## All units -/

/-- The units of a byte sequence. -/
def units : List UInt8 → List Unit
  | [] => []
  | a :: r =>
    let u := unitAt a r
    u :: units (r.drop (u.bytes.length - 1))
  termination_by bs => bs.length
  decreasing_by simp only [List.length_drop, List.length_cons]; omega

/-- Every byte belongs to one unit. -/
theorem flatMap_bytes_units (bs : List UInt8) : (units bs).flatMap Unit.bytes = bs := by
  fun_induction units bs with
  | case1 => rfl
  | case2 a r u ih =>
    obtain ⟨front, rest, hu, hr⟩ := bytes_unitAt a r
    have hu' : u.bytes = a :: front := hu
    simp [hu', hr] at ih ⊢
    simpa using ih

/-! ## Decoding and encoding -/

/-- The first ill-formed stretch of a byte sequence. -/
structure Failure where
  /-- The number of bytes before the stretch. -/
  position : Nat
  bytes : List UInt8
  flaw : Flaw
  deriving DecidableEq, Repr

/-- The wording of a flaw. -/
def Flaw.wording : Flaw → Text
  | startByte => "invalid start byte".toList
  | continuationByte => "invalid continuation byte".toList
  | endOfData => "unexpected end of data".toList

/-- What is wrong with a byte sequence, and where. -/
def Failure.message (f : Failure) : Text :=
  let stretch := match f.bytes with
    | [b] =>
      "byte 0x".toList ++ Text.hexadecimal 2 b.toNat ++ " in position ".toList ++
        Text.ofNat f.position
    | bs =>
      "bytes in position ".toList ++ Text.ofNat f.position ++ '-' ::
        Text.ofNat (f.position + bs.length - 1)
  "'utf-8' codec can't decode ".toList ++ stretch ++ ": ".toList ++ f.flaw.wording

/-- Decodes units that begin after `position` bytes, up to the first ill-formed one. -/
def decodeUnits (position : Nat) : List Unit → Except Failure Text
  | [] => .ok []
  | .scalar c bs :: us => (decodeUnits (position + bs.length) us).map (c :: ·)
  | .illFormed flaw bs :: _ => .error ⟨position, bs, flaw⟩

/-- The text of a byte sequence, if all of it is well formed. -/
def decode (bs : List UInt8) : Except Failure Text :=
  decodeUnits 0 (units bs)

/-- A unit as text, U+FFFD for an ill-formed one. -/
def Unit.replaced : Unit → Char
  | .scalar c _ => c
  | .illFormed _ _ => '\ufffd'

/-- The text of a byte sequence with U+FFFD for each ill-formed stretch. -/
def decodeReplacing (bs : List UInt8) : Text :=
  (units bs).map Unit.replaced

/-- The bytes of a text. -/
def encode (s : Text) : List UInt8 :=
  s.flatMap String.utf8EncodeChar

/-- The number of bytes of a text. -/
def byteLength (s : Text) : Nat :=
  s.foldr (fun c n => c.utf8Size + n) 0

end Bindery.Utf8
