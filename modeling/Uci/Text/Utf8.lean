import Uci.Text.Basic

/-!
# UTF-8

Reading text out of bytes. A character takes up to four bytes; its first byte says
how many, and bounds what the second may be, so that no character has two forms and
no surrogate has any.

* `Utf8.decode?` — the text that bytes stand for, if they stand for any.
* `Utf8.decodeLossy` — a text for any bytes: what is no character becomes U+FFFD,
  once for every longest part that begins one.
-/

namespace Uci
namespace Utf8

/-- Whether a byte can only continue a character. -/
def isContinuation (b : UInt8) : Bool := 0x80 ≤ b && b ≤ 0xbf

/-- What the first byte of a character says: the bits it brings, the bounds of the
second byte, and how many bytes follow. -/
def lead? (b : UInt8) : Option (Nat × UInt8 × UInt8 × Nat) :=
  if b ≤ 0x7f then some (b.toNat, 0x80, 0xbf, 0)
  else if b < 0xc2 then none
  else if b ≤ 0xdf then some (b.toNat - 0xc0, 0x80, 0xbf, 1)
  else if b = 0xe0 then some (0, 0xa0, 0xbf, 2)
  else if b = 0xed then some (0xd, 0x80, 0x9f, 2)
  else if b ≤ 0xef then some (b.toNat - 0xe0, 0x80, 0xbf, 2)
  else if b = 0xf0 then some (0, 0x90, 0xbf, 3)
  else if b ≤ 0xf3 then some (b.toNat - 0xf0, 0x80, 0xbf, 3)
  else if b = 0xf4 then some (4, 0x80, 0x8f, 3)
  else none

/-- How many bytes at the start go on with a character: at most `n`, the first of
them within the bounds. -/
def follow (low high : UInt8) : Nat → List UInt8 → Nat
  | 0, _ => 0
  | _ + 1, [] => 0
  | n + 1, b :: bytes => if low ≤ b && b ≤ high then follow 0x80 0xbf n bytes + 1 else 0

/-- The longest part of `b :: bytes` that begins a character: how many of `bytes` it
takes, and the character if the part is complete. -/
def character (b : UInt8) (bytes : List UInt8) : Nat × Option Char :=
  match lead? b with
  | none => (0, none)
  | some (bits, low, high, n) =>
    let taken := follow low high n bytes
    (taken,
      if taken = n then
        some (Char.ofNat ((bytes.take n).foldl (fun v c => v * 64 + (c.toNat - 0x80)) bits))
      else none)

/-- **The text for any bytes.** -/
def decodeLossy : List UInt8 → Text
  | [] => []
  | b :: bytes =>
    let (taken, c) := character b bytes
    c.getD '\ufffd' :: decodeLossy (bytes.drop taken)
  termination_by bytes => bytes.length
  decreasing_by simp only [List.length_drop, List.length_cons]; omega

/-- **The text that bytes stand for**, if they stand for any. -/
def decode? : List UInt8 → Option Text
  | [] => some []
  | b :: bytes =>
    match character b bytes with
    | (taken, some c) => (decode? (bytes.drop taken)).map (c :: ·)
    | (_, none) => none
  termination_by bytes => bytes.length
  decreasing_by simp only [List.length_drop, List.length_cons]; omega

end Utf8
end Uci
