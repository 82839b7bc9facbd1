import PolicyDecision.Hex

/-!
# Universally unique identifiers

A `Uuid` is 128 bits. It has one printed form, lower-case hexadecimal in groups of
8-4-4-4-12 digits, and four written forms that are read: 32 bare digits, the grouped digits,
the grouped digits in braces, and the grouped digits behind `urn:uuid:`. Letters may have
either case when read. Nothing else is an identifier, not even one of these forms with a
blank around it.
-/

namespace PolicyDecision

/-- A 128-bit identifier. -/
structure Uuid where
  bits : BitVec 128
  deriving DecidableEq

namespace Uuid

/-- Identifiers are ordered as numbers, which is also the order of their printed forms. -/
instance : LT Uuid := ⟨fun a b => a.bits.toNat < b.bits.toNat⟩

instance (a b : Uuid) : Decidable (a < b) :=
  inferInstanceAs (Decidable (a.bits.toNat < b.bits.toNat))

theorem lt_trans {a b c : Uuid} (hab : a < b) (hbc : b < c) : a < c :=
  Nat.lt_trans hab hbc

theorem lt_irrefl (a : Uuid) : ¬a < a :=
  Nat.lt_irrefl _

theorem eq_of_not_lt {a b : Uuid} (hab : ¬a < b) (hba : ¬b < a) : a = b := by
  have h : a.bits.toNat = b.bits.toNat := Nat.le_antisymm (Nat.not_lt.1 hba) (Nat.not_lt.1 hab)
  cases a; cases b; simpa using BitVec.eq_of_toNat_eq h

/-! ### Printing -/

/-- Thirty-two digits in groups of 8-4-4-4-12. -/
def group (ds : List Char) : List Char :=
  ds.take 8 ++ '-' :: (ds.drop 8).take 4 ++ '-' :: (ds.drop 12).take 4 ++
    '-' :: (ds.drop 16).take 4 ++ '-' :: ds.drop 20

def toString (u : Uuid) : String :=
  String.ofList (group (Hex.digits 32 u.bits.toNat))

instance : ToString Uuid := ⟨Uuid.toString⟩

/-! ### Reading -/

/-- Thirty-two bare digits. -/
def ofBare? (cs : List Char) : Option Uuid :=
  if cs.length = 32 then (Hex.read 0 cs).map fun n => ⟨BitVec.ofNat 128 n⟩ else none

/-- Digits in groups of 8-4-4-4-12. -/
def ofGrouped? (cs : List Char) : Option Uuid :=
  if cs.length = 36 ∧ cs[8]? = some '-' ∧ cs[13]? = some '-' ∧ cs[18]? = some '-' ∧
      cs[23]? = some '-' then
    ofBare? (cs.take 8 ++ (cs.drop 9).take 4 ++ (cs.drop 14).take 4 ++ (cs.drop 19).take 4 ++
      cs.drop 24)
  else none

/-- Grouped digits in braces. -/
def ofBraced? (cs : List Char) : Option Uuid :=
  if cs.head? = some '\x7b' ∧ cs.getLast? = some '\x7d' then ofGrouped? cs.tail.dropLast
  else none

/-- Grouped digits behind `urn:uuid:`, written in either case. -/
def ofUrn? (cs : List Char) : Option Uuid :=
  if (cs.take 9).map Char.toLower = "urn:uuid:".toList then ofGrouped? (cs.drop 9) else none

/-- Read one of the four written forms. -/
def parse? (text : String) : Option Uuid :=
  let cs := text.toList
  (ofBare? cs).or <| (ofGrouped? cs).or <| (ofBraced? cs).or <| ofUrn? cs

end Uuid
end PolicyDecision
