import Demotion.Text.Quoted

/-!
# UTF-8

`decode` reads well-formed UTF-8 and nothing else: no overlong forms, no surrogates, nothing above
U+10FFFF. Where it stops, `Malformed` names the bytes and what is wrong with them. `decodeLossy`
reads any bytes and puts one U+FFFD in the place of each malformed run; `decodeEscaped` keeps the
bytes of such a run as lone halves.
-/

namespace Demotion.Text.Utf8

/-- What is wrong with a run of bytes. -/
inductive Fault where
  | startByte
  | continuation
  | unfinished
  deriving DecidableEq, Repr

/-- The first character of some bytes and how many bytes it takes, or how many bytes are malformed
and why. -/
inductive Head where
  | char (c : Char) (size : Nat)
  | malformed (fault : Fault) (size : Nat)
  deriving DecidableEq, Repr

/-- Whether a byte continues a character. -/
def isContinuation (b : UInt8) : Bool :=
  0x80 ≤ b.toNat && b.toNat ≤ 0xBF

/-- Whether a byte may stand second after the first byte `lead`. The bounds leave out overlong
forms, surrogates and code points above U+10FFFF. -/
def isSecond (lead b : UInt8) : Bool :=
  match lead.toNat with
  | 0xE0 => 0xA0 ≤ b.toNat && b.toNat ≤ 0xBF
  | 0xED => 0x80 ≤ b.toNat && b.toNat ≤ 0x9F
  | 0xF0 => 0x90 ≤ b.toNat && b.toNat ≤ 0xBF
  | 0xF4 => 0x80 ≤ b.toNat && b.toNat ≤ 0x8F
  | _ => isContinuation b

/-- The number of bytes of a character that starts with `b`, if one can. -/
def width? (b : UInt8) : Option Nat :=
  if b.toNat < 0x80 then some 1
  else if b.toNat < 0xC2 then none
  else if b.toNat < 0xE0 then some 2
  else if b.toNat < 0xF0 then some 3
  else if b.toNat < 0xF5 then some 4
  else none

/-- The six bits that a continuation byte carries. -/
def payload (b : UInt8) : Nat :=
  b.toNat % 0x40

/-- The character at the head of the bytes `b :: rest`, or the malformed run there. -/
def head (b : UInt8) (rest : List UInt8) : Head :=
  match width? b with
  | none => .malformed .startByte 1
  | some 1 => .char (Char.ofNat b.toNat) 1
  | some n =>
    match rest with
    | [] => .malformed .unfinished 1
    | b₂ :: rest =>
      if !isSecond b b₂ then .malformed .continuation 1
      else if n = 2 then .char (Char.ofNat (b.toNat % 0x20 * 0x40 + payload b₂)) 2
      else match rest with
        | [] => .malformed .unfinished 2
        | b₃ :: rest =>
          if !isContinuation b₃ then .malformed .continuation 2
          else if n = 3 then
            .char (Char.ofNat ((b.toNat % 0x10 * 0x40 + payload b₂) * 0x40 + payload b₃)) 3
          else match rest with
            | [] => .malformed .unfinished 3
            | b₄ :: _ =>
              if !isContinuation b₄ then .malformed .continuation 3
              else .char (Char.ofNat
                (((b.toNat % 0x08 * 0x40 + payload b₂) * 0x40 + payload b₃) * 0x40 + payload b₄)) 4

/-- A malformed run: its offset, its bytes and what is wrong with them. -/
structure Malformed where
  offset : Nat
  bytes : List UInt8
  fault : Fault
  deriving DecidableEq, Repr

/-- The text of well-formed bytes that start at `offset`, or their first malformed run. -/
def decodeFrom (offset : Nat) : List UInt8 → Except Malformed (List Char)
  | [] => .ok []
  | b :: rest =>
    match head b rest with
    | .malformed fault size => .error ⟨offset, (b :: rest).take size, fault⟩
    | .char c size =>
      match decodeFrom (offset + size) (rest.drop (size - 1)) with
      | .error e => .error e
      | .ok cs => .ok (c :: cs)
  termination_by bytes => bytes.length
  decreasing_by simp only [List.length_drop, List.length_cons]; omega

/-- The text of well-formed bytes, or their first malformed run. -/
def decode (bytes : List UInt8) : Except Malformed (List Char) :=
  decodeFrom 0 bytes

/-- The text of any bytes, each malformed run read as one U+FFFD. -/
def decodeLossy : List UInt8 → List Char
  | [] => []
  | b :: rest =>
    match head b rest with
    | .malformed _ size => '\uFFFD' :: decodeLossy (rest.drop (size - 1))
    | .char c size => c :: decodeLossy (rest.drop (size - 1))
  termination_by bytes => bytes.length
  decreasing_by all_goals (simp only [List.length_drop, List.length_cons]; omega)

/-- The content of any bytes, in which each byte of a malformed run is a lone half. -/
def decodeEscaped : List UInt8 → Content
  | [] => []
  | b :: rest =>
    match head b rest with
    | .malformed _ size =>
      ((b :: rest).take size).map (fun byte => .half (0xDC00 + byte.toNat)) ++
        decodeEscaped (rest.drop (size - 1))
    | .char c size => .char c :: decodeEscaped (rest.drop (size - 1))
  termination_by bytes => bytes.length
  decreasing_by all_goals (simp only [List.length_drop, List.length_cons]; omega)

/-- The bytes of a text. -/
def encode (s : List Char) : List UInt8 :=
  s.flatMap String.utf8EncodeChar

/-- What is wrong, in words. -/
def Fault.message : Fault → String
  | .startByte => "invalid start byte"
  | .continuation => "invalid continuation byte"
  | .unfinished => "unexpected end of data"

/-- The message names the byte, or the first and the last position if there are several. -/
def Malformed.message (e : Malformed) : String :=
  let reason := e.fault.message
  match e.bytes with
  | [b] =>
    let shown := String.ofList (hex 2 b.toNat)
    s!"'utf-8' codec can't decode byte 0x{shown} in position {e.offset}: {reason}"
  | bytes =>
    let last := e.offset + bytes.length - 1
    s!"'utf-8' codec can't decode bytes in position {e.offset}-{last}: {reason}"

end Demotion.Text.Utf8
