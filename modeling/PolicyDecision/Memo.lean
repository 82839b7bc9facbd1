import PolicyDecision.Config

/-!
# Bounded memory

A memo remembers values by key, the most recently used first. Looking a key up uses it. When
an insertion leaves more entries than the limit, a batch of the least recently used is dropped;
a limit of zero is no limit, and a batch is at least one entry. The batch may be larger than the
memo, in which case the entry just inserted is dropped with the rest.
-/

namespace PolicyDecision

/-- Remembered values by key, the most recently used first. -/
structure Memo (κ ν : Type) where
  entries : List (κ × ν) := []
  maxLength : Nat
  evictBatch : Nat

namespace Memo

variable {κ ν : Type} [BEq κ]

/-- A memo without entries. -/
def new (config : CacheConfig) : Memo κ ν :=
  { maxLength := config.maxLength, evictBatch := config.evictBatch }

/-- A memo, if the configuration enables one. -/
def ofConfig (config : CacheConfig) : Option (Memo κ ν) :=
  if config.enabled then some (new config) else none

/-- The entries without that of a key. -/
def without (key : κ) (entries : List (κ × ν)) : List (κ × ν) :=
  entries.filter fun entry => !(entry.1 == key)

/-- The value of a key, which becomes the most recently used. -/
def get (m : Memo κ ν) (key : κ) : Option ν × Memo κ ν :=
  match m.entries.lookup key with
  | some value => (some value, { m with entries := (key, value) :: without key m.entries })
  | none => (none, m)

/-- Remember a value, dropping a batch of entries if there are then too many. -/
def insert (m : Memo κ ν) (key : κ) (value : ν) : Memo κ ν :=
  let entries := (key, value) :: without key m.entries
  if 0 < m.maxLength ∧ m.maxLength < entries.length then
    { m with entries := entries.take (entries.length - max m.evictBatch 1) }
  else { m with entries }

def clear (m : Memo κ ν) : Memo κ ν :=
  { m with entries := [] }

def size (m : Memo κ ν) : Nat :=
  m.entries.length

end Memo
end PolicyDecision
