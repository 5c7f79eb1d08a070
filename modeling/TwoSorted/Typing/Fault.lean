import TwoSorted.Expr
import TwoSorted.Ty

/-!
# Type faults

An operand of a sum that is no number, a condition that is no truth value, and
two branches of different types are the three kinds of fault. The locus says
which operands are to blame. A fault is also known by a pair of numbers, and
a pair can be compared with another that leaves the locus open.
-/

namespace TwoSorted

/-- What is wrong with the operands of a node. -/
inductive FaultKind where
  | numberExpected
  | booleanExpected
  | branchMismatch
  deriving DecidableEq

namespace FaultKind

def name : FaultKind → String
  | numberExpected => "NumberExpected"
  | booleanExpected => "BooleanExpected"
  | branchMismatch => "BranchMismatch"

def message : FaultKind → String
  | numberExpected => "number expected"
  | booleanExpected => "boolean expected"
  | branchMismatch => "then and else have different types"

def code : FaultKind → Int
  | numberExpected => 1
  | booleanExpected => 2
  | branchMismatch => 3

def ofCode? : Int → Option FaultKind
  | 1 => some numberExpected
  | 2 => some booleanExpected
  | 3 => some branchMismatch
  | _ => none

end FaultKind

/-- Which operands of a node are at fault. -/
inductive Locus where
  | left
  | right
  | condition
  | branches
  deriving DecidableEq

namespace Locus

def name : Locus → String
  | left => "left operand"
  | right => "right operand"
  | condition => "condition"
  | branches => "branches"

def code : Locus → Int
  | left => 1
  | right => 2
  | condition => 3
  | branches => 4

def ofCode? : Int → Option Locus
  | 1 => some left
  | 2 => some right
  | 3 => some condition
  | 4 => some branches
  | _ => none

end Locus

/-- The codes of a kind and of a locus. Zero leaves the locus open, and codes
that stand for nothing are kept. -/
structure FaultCode where
  kind : Int
  locus : Int
  deriving DecidableEq

namespace FaultCode

def kindName (c : FaultCode) : String :=
  (FaultKind.ofCode? c.kind).elim "unknown" FaultKind.name

def locusName (c : FaultCode) : String :=
  (Locus.ofCode? c.locus).elim "" Locus.name

def message (c : FaultCode) : String :=
  (FaultKind.ofCode? c.kind).elim "type error" FaultKind.message

/-- The code of a kind at any locus. -/
def anywhere (kind : FaultKind) : FaultCode :=
  ⟨kind.code, 0⟩

/-- Whether `c` is of the kind of the pattern, and at its locus if it has one. -/
def isA (c pattern : FaultCode) : Bool :=
  c.kind == pattern.kind && (pattern.locus == 0 || pattern.locus == c.locus)

end FaultCode

/-- A node whose operands break a typing rule, and the path to it from the
root, by the places of the operands. -/
structure Mismatch where
  kind : FaultKind
  locus : Locus
  node : Expr
  path : List Nat
  deriving DecidableEq

namespace Mismatch

def code (m : Mismatch) : FaultCode :=
  ⟨m.kind.code, m.locus.code⟩

end Mismatch

/-- Why a tree has no type. -/
inductive TypeFault where
  /-- An operand, or the whole tree, is missing. -/
  | missing
  | mismatch (m : Mismatch)
  deriving DecidableEq

namespace TypeFault

def message : TypeFault → String
  | missing => "check: nil expression"
  | mismatch m => m.kind.message

end TypeFault

end TwoSorted
