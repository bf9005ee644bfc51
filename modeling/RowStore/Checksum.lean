import RowStore.Bytes

/-!
# CRC-32

The reflected CRC-32 of IEEE 802.3: the register starts with all bits set, each byte enters at the
low end and is shifted out bit by bit against the reversed polynomial, and the result is inverted.

The checksum stands here so that numbers of tables can be computed. What is proved of tables and
pages holds for any function of the path, as no proof looks inside it; runs on fixed inputs only
compare the numbers of the tables in them.
-/

namespace RowStore.Crc32

def polynomial : UInt32 := 0xEDB88320

def shift (register : UInt32) : UInt32 :=
  if register &&& 1 = 1 then (register >>> 1) ^^^ polynomial else register >>> 1

def feed (register : UInt32) (b : UInt8) : UInt32 :=
  Nat.repeat shift 8 (register ^^^ b.toUInt32)

def checksum (bytes : Bytes) : UInt32 := ~~~ (bytes.foldl feed 0xFFFFFFFF)

end RowStore.Crc32
