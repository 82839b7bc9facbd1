import PolicyDecision.Hex
import PolicyDecision.Trail

/-!
# The log of the command

A line of the log is written as its level and its text. A text may hold names that somebody
else chose, so the controls with which a terminal's display can be changed are written as their
code points; those that only move the text on, such as the tab and the line feed, stay.
`control_notMem_written` says that no such control is ever written.
-/

namespace PolicyDecision.Command

structure LogLine where
  level : Level
  text : String

/-- The log lines of a trail. -/
def logLines (trail : Trail) : List LogLine :=
  trail.filterMap fun
    | .logged notice => some ⟨notice.level, notice.text⟩
    | _ => none

namespace LogLine

/-- Whether a line is logged when lines below a level are not. -/
def reaches (least : Level) (line : LogLine) : Bool :=
  least.severity ≤ line.level.severity

/-- The controls of one byte that change what a terminal shows: the bell, the backspace, the form
feed, the escape and the delete. -/
def isShortControl (c : Char) : Bool :=
  c = '\x07' || c = '\x08' || c = '\x0c' || c = '\x1b' || c = '\x7f'

/-- The controls beyond ASCII. -/
def isLongControl (c : Char) : Bool :=
  0x80 ≤ c.toNat && c.toNat ≤ 0x9F

/-- A character of a text in the log. -/
def writeChar (c : Char) : List Char :=
  if isShortControl c then ['\\', 'x'] ++ Hex.digits 2 c.toNat
  else if isLongControl c then ['\\', 'u', '\x7b'] ++ Hex.digits 2 c.toNat ++ ['\x7d']
  else [c]

/-- A line as it is written, which may take several lines if its text does. -/
def written (line : LogLine) : String :=
  String.ofList (line.level.name.toList ++ ' ' :: line.text.toList.flatMap writeChar)

/-! ### What is never written -/

/-- Whether a terminal would act on a character. -/
def isControl (c : Char) : Bool :=
  isShortControl c || isLongControl c

theorem isControl_of_mem {cs : List Char} (free : cs.all (fun c => !isControl c) = true) {c : Char}
    (h : c ∈ cs) : isControl c = false := by
  have := List.all_eq_true.1 free c h
  rwa [Bool.not_eq_true'] at this

theorem isControl_of_mem_digits {c : Char} {width n : Nat} (h : c ∈ Hex.digits width n) :
    isControl c = false := by
  induction width generalizing n with
  | zero => cases h
  | succ width ih =>
    rw [Hex.digits, List.mem_append] at h
    rcases h with h | h
    · exact ih h
    · have digit : ∀ d : Fin 16, isControl (Nat.digitChar d) = false := by decide
      rw [List.mem_singleton.1 h]
      exact digit ⟨n % 16, Nat.mod_lt _ (by decide)⟩

theorem isControl_of_mem_writeChar {c d : Char} (h : d ∈ writeChar c) : isControl d = false := by
  unfold writeChar at h
  split at h
  · rcases List.mem_append.1 h with h | h
    · exact isControl_of_mem (by decide) h
    · exact isControl_of_mem_digits h
  · split at h
    · rcases List.mem_append.1 h with h | h
      · rcases List.mem_append.1 h with h | h
        · exact isControl_of_mem (by decide) h
        · exact isControl_of_mem_digits h
      · exact isControl_of_mem (by decide) h
    · next short long =>
      rw [List.mem_singleton.1 h, isControl, Bool.or_eq_false_iff]
      exact ⟨Bool.eq_false_iff.2 short, Bool.eq_false_iff.2 long⟩

theorem control_notMem_written (line : LogLine) :
    ∀ c ∈ line.written.toList, isControl c = false := by
  intro c h
  rw [written, String.toList_ofList, List.mem_append, List.mem_cons] at h
  rcases h with h | rfl | h
  · exact isControl_of_mem (by cases line.level <;> decide) h
  · decide
  · obtain ⟨d, _, h⟩ := List.mem_flatMap.1 h
    exact isControl_of_mem_writeChar h

end LogLine

end PolicyDecision.Command
