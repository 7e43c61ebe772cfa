import Quorum.Net.Punycode
import Quorum.Text.Utf8

/-!
# Domain names in URLs

A host name is brought into its plain form before it is looked at: letters in lower
case, full-width forms as the ASCII characters they stand for, characters without
any width left out. Names with a character that no host name may hold are refused.
-/

namespace Quorum.Domain

/-- ASCII characters that no host name holds. -/
def isForbidden (c : Char) : Bool :=
  c.toNat ≤ 0x20 || c.toNat == 0x7F || "#%/:<>?@[\\]^|".toList.contains c

/-- Characters that stand for nothing. -/
def isIgnored (c : Char) : Bool :=
  c.toNat == 0xAD || c.toNat == 0x34F || (0x180B ≤ c.toNat && c.toNat ≤ 0x180F) ||
  c.toNat == 0x200B || c.toNat == 0x2060 || c.toNat == 0x2064 ||
  (0xFE00 ≤ c.toNat && c.toNat ≤ 0xFE0F) || c.toNat == 0xFEFF

/-- Blanks beyond ASCII, which read as a space. -/
def isWideBlank (c : Char) : Bool :=
  c.toNat == 0xA0 || (0x2000 ≤ c.toNat && c.toNat ≤ 0x200A) || c.toNat == 0x202F ||
  c.toNat == 0x205F || c.toNat == 0x3000

/-- Characters beyond ASCII that are refused: controls, separators, direction marks, private use,
the replacement character and the codes that are no characters. -/
def isRefused (c : Char) : Bool :=
  (0x80 ≤ c.toNat && c.toNat ≤ 0x9F) || (0x200C ≤ c.toNat && c.toNat ≤ 0x200F) ||
  (0x2028 ≤ c.toNat && c.toNat ≤ 0x202E) || (0x2061 ≤ c.toNat && c.toNat ≤ 0x206F) ||
  c.toNat == 0x1680 || (0xE000 ≤ c.toNat && c.toNat ≤ 0xF8FF) ||
  (0xFFF0 ≤ c.toNat && c.toNat ≤ 0xFFFF) || 0xE0000 ≤ c.toNat

/-- One character in the plain form; `none` for one that is refused. -/
def mapped (c : Char) : Option (List Char) :=
  if c.toNat < 0x80 then some [c.toLower]
  else if isIgnored c then some []
  else if isRefused c then none
  else if isWideBlank c then some [' ']
  else if c.toNat == 0x3002 || c.toNat == 0xFF0E || c.toNat == 0xFF61 then some ['.']
  else if 0xFF01 ≤ c.toNat && c.toNat ≤ 0xFF5E then some [(Char.ofNat (c.toNat - 0xFEE0)).toLower]
  else some [c]

/-- Whether a label that claims to be written in ASCII stands for other characters. -/
def labelOk (label : List Char) : Bool :=
  match label with
  | 'x' :: 'n' :: '-' :: '-' :: rest =>
    match Punycode.decode? rest with
    | some cs => cs.any (128 ≤ ·.toNat) && cs.all fun c => c.toNat < 128 || (mapped c).isSome
    | none => false
  | _ => true

def labels : List Char → List (List Char)
  | [] => [[]]
  | '.' :: rest => [] :: labels rest
  | c :: rest =>
    match labels rest with
    | [] => [[c]]
    | l :: ls => (c :: l) :: ls

/-- The plain form of a name given by its bytes. -/
def normal? (s : Bytes) : Option (List Char) := do
  let text ← Utf8.decode? s
  let chars := (← text.toList.mapM mapped).flatten
  if chars.any isForbidden || !(labels chars).all labelOk then none else some chars

end Quorum.Domain
