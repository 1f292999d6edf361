import Handset.Bytes

/-!
# Checksums

The cyclic redundancy check that archives keep of their files.
-/
namespace Handset.Package

def checksumBit (sum : UInt32) : UInt32 :=
  if sum &&& 1 = 1 then (sum >>> 1) ^^^ 0xEDB88320 else sum >>> 1

def checksumByte (sum : UInt32) (byte : UInt8) : UInt32 :=
  let s := sum ^^^ byte.toUInt32
  checksumBit (checksumBit (checksumBit (checksumBit
    (checksumBit (checksumBit (checksumBit (checksumBit s)))))))

def checksum (bytes : Bytes) : UInt32 :=
  bytes.foldl checksumByte 0xFFFFFFFF ^^^ 0xFFFFFFFF

end Handset.Package
