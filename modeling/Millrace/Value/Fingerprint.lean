import Millrace.Value

/-!
# Fingerprints

A fingerprint is the byte string that a hash table is fed for a value: a tag, then a fixed number of bytes, or the
bytes of a text up to an end mark that no text holds, or a length and the fingerprints of the items.
-/

namespace Millrace

/-- The eight bytes of a word, the lowest first. -/
def wordBytes (w : UInt64) : List UInt8 :=
  (List.range 8).map fun i => (w >>> (8 * i).toUInt64).toUInt8

namespace Value

mutual

/-- The bytes that stand for a value. -/
def fingerprint : Value → List UInt8
  | .bool b => [0, if b then 1 else 0]
  | .int n => 1 :: wordBytes n.toUInt64
  | .float x => 2 :: wordBytes x.bits
  | .str s => 3 :: (s.toUTF8.toList ++ [0xff])
  | .tuple items => 4 :: (wordBytes items.length.toUInt64 ++ fingerprintAll items)

/-- The fingerprints of several values, one after the other. -/
def fingerprintAll : List Value → List UInt8
  | [] => []
  | v :: rest => fingerprint v ++ fingerprintAll rest

end
end Value

/-- The bytes that stand for a row: its width, then its columns. -/
def Row.fingerprint (row : Row) : List UInt8 :=
  wordBytes row.length.toUInt64 ++ Value.fingerprintAll row

end Millrace
