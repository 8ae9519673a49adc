import CyranoAgent.Contracts.Canonical

/-!
# JSON text with the defaults of `json.dumps`

Text of ASCII characters with `", "` and `": "` between the parts, as the code hashes it where it
does not ask for the canonical encoding.
-/

namespace CyranoAgent

namespace PlainJson

/-- Four hexadecimal digits. -/
def hex4 (n : ℕ) : List Char :=
  [Nat.digitChar (n / 4096 % 16), Nat.digitChar (n / 256 % 16), Nat.digitChar (n / 16 % 16),
    Nat.digitChar (n % 16)]

/-- One character of a JSON string, `ensure_ascii=True`; a character beyond the basic plane is
written as two surrogates. -/
def escapeAscii (c : Char) : List Char :=
  if 32 ≤ c.toNat ∧ c.toNat < 127 ∨ c = '\n' ∨ c = '\r' ∨ c = '\t' ∨ c.toNat = 8 ∨ c.toNat = 12 then
    escapeChar c
  else if c.toNat < 0x10000 then '\\' :: 'u' :: hex4 c.toNat
  else '\\' :: 'u' :: (hex4 (0xd800 + (c.toNat - 0x10000) / 1024) ++
    '\\' :: 'u' :: hex4 (0xdc00 + (c.toNat - 0x10000) % 1024))

/-- `json.dumps(text)`. -/
def text (s : String) : String :=
  String.ofList ('"' :: (s.toList.flatMap escapeAscii ++ ['"']))

/-- `json.dumps` of a list of printed items. -/
def list (items : List String) : String := "[" ++ ", ".intercalate items ++ "]"

end PlainJson

end CyranoAgent
