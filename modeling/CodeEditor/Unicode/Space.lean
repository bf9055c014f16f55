import CodeEditor.Unicode.Ranges

/-!
# White space

The characters with the Unicode property `White_Space`.
-/

namespace CodeEditor.Unicode

def spaceRanges : Ranges :=
  [(0x9, 0xd), (0x20, 0x20), (0x85, 0x85), (0xa0, 0xa0), (0x1680, 0x1680), (0x2000, 0x200a),
    (0x2028, 0x2029), (0x202f, 0x202f), (0x205f, 0x205f), (0x3000, 0x3000)]

def isSpace (c : Char) : Bool :=
  spaceRanges.any fun (first, last) ↦ first ≤ c.toNat && c.toNat ≤ last

/-- Drops the white space at both ends. -/
def trim (text : List Char) : List Char :=
  ((text.dropWhile isSpace).reverse.dropWhile isSpace).reverse

end CodeEditor.Unicode
