/-!
Blank characters and the comparison of configuration words: surrounding blanks do not count, and
neither does the case of the letters a to z. Blanks are those of the Unicode property White_Space;
every character that `Char.isWhitespace` accepts is one of them.
-/

namespace LossWatch.Text

def isBlank (c : Char) : Bool :=
  let n := c.toNat
  9 ≤ n && n ≤ 13 || n == 32 || n == 0x85 || n == 0xA0 || n == 0x1680 || 0x2000 ≤ n && n ≤ 0x200A
    || n == 0x2028 || n == 0x2029 || n == 0x202F || n == 0x205F || n == 0x3000

def trimBlanks (s : String) : String :=
  String.ofList ((s.toList.dropWhile isBlank).reverse.dropWhile isBlank).reverse

/-- The letters A to Z in lower case, all else as it is. -/
def lowerAscii (s : String) : String :=
  s.map fun c => if 'A' ≤ c && c ≤ 'Z' then Char.ofNat (c.toNat + 32) else c

def word (s : String) : String := lowerAscii (trimBlanks s)

end LossWatch.Text
