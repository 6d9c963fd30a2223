-- Texts in quotes. A quote, a backslash and the usual control characters are
-- written with a backslash; every other character that shows no mark of its
-- own is written by its code point.
namespace LifecycleLog.Quoted

/-- Characters that show no mark of their own: control and format characters,
blanks other than the space, marks that join the character in front, and
private ones. Characters without a meaning yet are left out. -/
def markless : List (Nat × Nat) :=
  [(0x00, 0x1F), (0x7F, 0xA0), (0xAD, 0xAD), (0x300, 0x36F), (0x483, 0x489), (0x591, 0x5BD),
    (0x600, 0x605), (0x610, 0x61A), (0x61C, 0x61C), (0x64B, 0x65F), (0x6DD, 0x6DD),
    (0x70F, 0x70F), (0x1680, 0x1680), (0x180E, 0x180E), (0x1AB0, 0x1ACE), (0x1DC0, 0x1DFF),
    (0x2000, 0x200F), (0x2028, 0x202F), (0x205F, 0x206F), (0x20D0, 0x20F0), (0x3000, 0x3000),
    (0x302A, 0x302F), (0x3099, 0x309A), (0xD800, 0xF8FF), (0xFE00, 0xFE0F), (0xFE20, 0xFE2F),
    (0xFEFF, 0xFEFF), (0xFF9E, 0xFF9F), (0xFFF0, 0xFFFB), (0xFFFE, 0xFFFF),
    (0xE0000, 0x10FFFF)]

def hasMark (c : Char) : Bool := !markless.any (fun r => r.1 ≤ c.toNat && c.toNat ≤ r.2)

/-- A code point in lower-case hexadecimal digits. -/
def codePoint (c : Char) : List Char :=
  ['\\', 'u', '\x7b'] ++ Nat.toDigits 16 c.toNat ++ ['\x7d']

def char (c : Char) : List Char :=
  match c with
  | '\x00' => ['\\', '0']
  | '\t' => ['\\', 't']
  | '\r' => ['\\', 'r']
  | '\n' => ['\\', 'n']
  | '"' => ['\\', '"']
  | '\\' => ['\\', '\\']
  | c => if hasMark c then [c] else codePoint c

def text (s : String) : String :=
  "\"" ++ String.ofList (s.toList.flatMap char) ++ "\""

end LifecycleLog.Quoted
