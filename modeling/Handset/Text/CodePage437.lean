import Handset.Bytes

/-!
# Code page 437

The character set of the first personal computers: ASCII below 128, and one character for each of the
other bytes. Every byte string is a text in it.
-/
namespace Handset.Text.CodePage437

def upper : Array Char :=
  ("ÇüéâäàåçêëèïîìÄÅÉæÆôöòûùÿÖÜ¢£¥₧ƒáíóúñÑªº¿⌐¬½¼¡«»░▒▓│┤╡╢╖╕╣║╗╝╜╛┐"
    ++ "└┴┬├─┼╞╟╚╔╩╦╠═╬╧╨╤╥╙╘╒╓╫╪┘┌█▄▌▐▀αßΓπΣσµτΦΘΩδ∞φε∩≡±≥≤⌠⌡÷≈°∙·√ⁿ²■\u00a0").toList.toArray

def ofByte (byte : UInt8) : Char :=
  if byte < 128 then Char.ofNat byte.toNat else upper.getD (byte.toNat - 128) (Char.ofNat 0)

def decode (b : Bytes) : String :=
  String.ofList (b.toList.map ofByte)

end Handset.Text.CodePage437
