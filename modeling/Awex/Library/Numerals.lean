import Mathlib.Data.Int.Notation
import Mathlib.Data.Nat.Notation

namespace Awex.Text

/-- `c.isspace()`. -/
def isSpace (c : Char) : Bool :=
  c.toNat ∈ [0x9, 0xa, 0xb, 0xc, 0xd, 0x1c, 0x1d, 0x1e, 0x1f, 0x20, 0x85, 0xa0, 0x1680, 0x2000, 0x2001, 0x2002, 0x2003,
    0x2004, 0x2005, 0x2006, 0x2007, 0x2008, 0x2009, 0x200a, 0x2028, 0x2029, 0x202f, 0x205f, 0x3000]

def strip (text : List Char) : List Char := ((text.dropWhile isSpace).reverse.dropWhile isSpace).reverse

def decimalZeros : List ℕ :=
  [0x30, 0x660, 0x6f0, 0x7c0, 0x966, 0x9e6, 0xa66, 0xae6, 0xb66, 0xbe6, 0xc66, 0xce6, 0xd66, 0xde6, 0xe50, 0xed0, 0xf20,
    0x1040, 0x1090, 0x17e0, 0x1810, 0x1946, 0x19d0, 0x1a80, 0x1a90, 0x1b50, 0x1bb0, 0x1c40, 0x1c50, 0xa620, 0xa8d0,
    0xa900, 0xa9d0, 0xa9f0, 0xaa50, 0xabf0, 0xff10, 0x104a0, 0x10d30, 0x11066, 0x110f0, 0x11136, 0x111d0, 0x112f0,
    0x11450, 0x114d0, 0x11650, 0x116c0, 0x11730, 0x118e0, 0x11950, 0x11c50, 0x11d50, 0x11da0, 0x16a60, 0x16ac0,
    0x16b50, 0x1d7ce, 0x1d7d8, 0x1d7e2, 0x1d7ec, 0x1d7f6, 0x1e140, 0x1e2f0, 0x1e950, 0x1fbf0]

def decimal? (c : Char) : Option ℕ :=
  decimalZeros.findSome? (fun z => if z ≤ c.toNat ∧ c.toNat < z + 10 then some (c.toNat - z) else none)

def decimals? : List Char → Option (List ℕ)
  | [] => none
  | [c] => (decimal? c).map (fun d => [d])
  | c :: '_' :: cs => (decimal? c).bind (fun d => (decimals? cs).map (fun ds => d :: ds))
  | c :: cs => (decimal? c).bind (fun d => (decimals? cs).map (fun ds => d :: ds))

def unsigned? (text : List Char) : Option ℤ :=
  (decimals? text).bind (fun ds =>
    if ds.length ≤ 4300 then some (ds.foldl (fun n d => 10 * n + d) 0 : ℕ) else none)

/-- `int(text)`, where no more than 4300 digits are read. -/
def int? : List Char → Option ℤ
  | '-' :: cs => (unsigned? cs).map (fun n => -n)
  | '+' :: cs => unsigned? cs
  | cs => unsigned? cs

example : (int? "-1_024".toList, int? "auto".toList, int? "1__0".toList) = (some (-1024), none, none) := by decide

end Awex.Text
