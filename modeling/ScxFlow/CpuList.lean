import ScxFlow.Lib.Text
import ScxFlow.State

/-!
# CPU lists

`parse_cpu_list` of the loader's `topology.rs`, which reads kernel lists of CPU ids and ranges such
as `0-3,5`.  A string is the list of its characters, and an id is a number; the pieces of the
standard library it calls are written out.
-/

namespace ScxFlow

/-- `CPU_BOUND`. -/
@[simp] def cpuBound : ℕ := 1024

/-- The white space `str::trim` removes. -/
def isWhiteSpace (c : Char) : Bool :=
  let v := c.toNat
  decide ((9 ≤ v ∧ v ≤ 13) ∨ v = 0x20 ∨ v = 0x85 ∨ v = 0xA0 ∨ v = 0x1680 ∨ (0x2000 ≤ v ∧ v ≤ 0x200A)
    ∨ v = 0x2028 ∨ v = 0x2029 ∨ v = 0x202F ∨ v = 0x205F ∨ v = 0x3000)

def strTrim (s : List Char) : List Char := Text.trim isWhiteSpace s

/-- The digits of a `u32` behind the value so far, with the checked multiply and add. -/
def parseDigits (acc : ℕ) : List Char → Option ℕ
  | [] => some acc
  | c :: s =>
    if c.isDigit then
      let v := 10 * acc + (c.toNat - 48)
      if v < 2 ^ 32 then parseDigits v s else none
    else none

/-- The text behind one leading plus sign. -/
def stripPlus : List Char → List Char
  | '+' :: s => s
  | s => s

/-- `str::parse::<u32>`: a plus sign may lead, and at least one digit follows. -/
def parseU32 (s : List Char) : Option ℕ :=
  let digits := stripPlus s
  if digits = [] then none else parseDigits 0 digits

/-- The two ends of a range, where both sides of the first dash parse. -/
def parseRange (part : List Char) : Option (ℕ × ℕ) :=
  match Text.splitOnce '-' part with
  | none => none
  | some (a, b) =>
    match parseU32 (strTrim a), parseU32 (strTrim b) with
    | some lo, some hi => some (lo, hi)
    | _, _ => none

/-- The ids one item pushes. -/
def parsePart (part : List Char) : List ℕ :=
  let part := strTrim part
  if part = [] then []
  else
    match parseRange part with
    | some (lo, hi) =>
      let hi := min hi (cpuBound - 1)
      if lo ≤ hi then List.range' lo (hi - lo + 1) else []
    | none =>
      match parseU32 part with
      | some cpu => if cpu < cpuBound then [cpu] else []
      | none => []

def parseCpuList (s : String) : List ℕ :=
  let out := (s.toList.splitOn ',').flatMap parsePart
  Text.sortDedup out

/-- `read_cpu_list_file`: a file that cannot be read has no CPU. -/
def readCpuListFile (text : Option String) : List ℕ := (text.map parseCpuList).getD []

end ScxFlow
