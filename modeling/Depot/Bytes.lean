/-!
# Byte strings

A payload is the list of its bytes. Text enters and leaves as UTF-8.
-/

namespace Depot

abbrev Bytes := List UInt8

namespace Bytes

/-- The UTF-8 encoding of a text. -/
def ofText (s : String) : Bytes := s.toUTF8.toList

def pack (b : Bytes) : ByteArray := ⟨b.toArray⟩

/-- The text that the bytes encode, when they are valid UTF-8. -/
def text? (b : Bytes) : Option String := String.fromUTF8? b.pack

def startsWith (b head : Bytes) : Bool := head.isPrefixOf b

/-- A number written with its least significant byte first. -/
def littleEndian : Bytes → Nat
  | [] => 0
  | b :: rest => b.toNat + 256 * littleEndian rest

/-- The `width` low bytes of a number, least significant first. -/
def ofNat (width n : Nat) : Bytes :=
  match width with
  | 0 => []
  | width + 1 => UInt8.ofNat (n % 256) :: ofNat width (n / 256)

end Bytes

end Depot
