/-!
# White space

Blank characters are those of the Unicode white space property. Trimming takes them off the ends.
-/
namespace FlowEngine.Text

def isBlank (c : Char) : Bool :=
  let n := c.toNat
  (9 ≤ n && n ≤ 13) || n == 0x20 || n == 0x85 || n == 0xA0 || n == 0x1680 ||
    (0x2000 ≤ n && n ≤ 0x200A) || n == 0x2028 || n == 0x2029 || n == 0x202F || n == 0x205F || n == 0x3000

def trimStart (s : String) : String := String.ofList (s.toList.dropWhile isBlank)

def trimEnd (s : String) : String := String.ofList (s.toList.reverse.dropWhile isBlank).reverse

def trim (s : String) : String := trimEnd (trimStart s)

def trimWhere (drops : Char → Bool) (s : String) : String :=
  String.ofList (((s.toList.dropWhile drops).reverse.dropWhile drops).reverse)

def trimEndWhere (drops : Char → Bool) (s : String) : String :=
  String.ofList (s.toList.reverse.dropWhile drops).reverse

def isAllBlank (s : String) : Bool := s.toList.all isBlank

end FlowEngine.Text
