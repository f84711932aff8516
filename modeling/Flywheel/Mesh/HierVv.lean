import Flywheel.Data.OrderedMap
import Mathlib.Algebra.Ring.Nat
import Mathlib.Data.List.DropRight

/-!
# Hierarchical version vectors

`HierarchicalVersionVector` and `RevocationFreshnessFrontier` of `fcp-mesh`. A vector
keeps counters for zone paths, and a path without a counter of its own inherits the
one of its nearest ancestor. Paths are lists of characters, for which the
lexicographic order is the byte order of their UTF-8 form. Counters are only compared,
apart from the saturating increment.
-/

namespace Flywheel.Mesh

open Flywheel.Data Std

abbrev Scope := List Char

/-- `char::is_whitespace`, the Unicode property `White_Space`. -/
def isWhitespace (c : Char) : Bool :=
  let n := c.toNat
  (9 ≤ n && n ≤ 13) || n == 0x20 || n == 0x85 || n == 0xA0 || n == 0x1680 ||
    (0x2000 ≤ n && n ≤ 0x200A) || n == 0x2028 || n == 0x2029 || n == 0x202F ||
    n == 0x205F || n == 0x3000

def trim (s : Scope) : Scope := (s.dropWhile isWhitespace).rdropWhile isWhitespace

def normalizeScope (scope : Scope) : Scope :=
  if trim scope = [] then ['z'] else trim scope

inductive VersionVectorOrder
  | equal
  | dominates
  | dominatedBy
  | concurrent
  deriving DecidableEq

inductive RevocationFreshnessAction
  | accept
  | rejectStale
  deriving DecidableEq

structure RevocationFreshnessDecision where
  scope : Scope
  localCounter : ℕ
  incomingCounter : ℕ
  order : VersionVectorOrder
  action : RevocationFreshnessAction
  deriving DecidableEq

def RevocationFreshnessDecision.isAccepted (d : RevocationFreshnessDecision) : Bool :=
  d.action = .accept

structure HierarchicalVersionVector where
  entries : TreeMap Scope ℕ

namespace HierarchicalVersionVector

def new : HierarchicalVersionVector := ⟨∅⟩

variable (v : HierarchicalVersionVector) (scope : Scope)

def set (counter : ℕ) : HierarchicalVersionVector :=
  ⟨v.entries.insert (normalizeScope scope) counter⟩

def increment : HierarchicalVersionVector × ℕ :=
  let scope := normalizeScope scope
  let next := min (v.entries.getD scope 0 + 1) (2 ^ 64 - 1)
  (⟨v.entries.insert scope next⟩, next)

def exact : Option ℕ := v.entries[trim scope]?

/-- The loop of `counter_for` over the characters of a scope from its end. What stands
before a separator is an ancestor. -/
def inherited (v : HierarchicalVersionVector) : List Char → ℕ
  | [] => 0
  | c :: before =>
    if c = ':' ∨ c = '/' then
      if before = [] then v.inherited before
      else
        match v.entries[before.reverse]? with
        | some counter => counter
        | none => v.inherited before
    else v.inherited before

/-- The part of `counter_for` after trimming: the scope's own counter or the one of its
nearest ancestor. -/
def effective : ℕ :=
  match v.entries[scope]? with
  | some counter => counter
  | none => v.inherited scope.reverse

def counterFor : ℕ :=
  if trim scope = [] then 0 else v.effective (trim scope)

variable (v other : HierarchicalVersionVector)

def comparisonScopes : List Scope :=
  unionKeys v.entries other.entries

/-- `HierarchicalVersionVector::merge`. Where the keys are the same, the two sequences of
values are paired key by key. -/
def merge : HierarchicalVersionVector :=
  if v.entries.keys = other.entries.keys then
    ⟨v.entries.map fun scope counter => max counter (other.entries.getD scope 0)⟩
  else
    ⟨updateInPlace (fun entries scope => max (counterFor ⟨entries⟩ scope) (other.counterFor scope))
      v.entries (v.comparisonScopes other)⟩

/-- The loop of `compare`, with the two flags. -/
def compareLoop (v other : HierarchicalVersionVector) :
    List Scope → Bool → Bool → VersionVectorOrder
  | [], false, false => .equal
  | [], true, false => .dominates
  | [], false, true => .dominatedBy
  | [], true, true => .concurrent
  | scope :: scopes, selfNewer, otherNewer =>
    let left := v.counterFor scope
    let right := other.counterFor scope
    let selfNewer := selfNewer || decide (left > right)
    let otherNewer := otherNewer || decide (right > left)
    if selfNewer && otherNewer then .concurrent
    else compareLoop v other scopes selfNewer otherNewer

def compare : VersionVectorOrder :=
  compareLoop v other (v.comparisonScopes other) false false

def dominates : Bool :=
  v.compare other = .equal || v.compare other = .dominates

end HierarchicalVersionVector

structure RevocationFreshnessFrontier where
  vector : HierarchicalVersionVector

namespace RevocationFreshnessFrontier

def incomingVector (scope : Scope) (counter : ℕ) : HierarchicalVersionVector :=
  HierarchicalVersionVector.new.set scope counter

def new : RevocationFreshnessFrontier := ⟨.new⟩

def fromCounter (scope : Scope) (counter : ℕ) : RevocationFreshnessFrontier :=
  ⟨incomingVector scope counter⟩

def counterFor (f : RevocationFreshnessFrontier) (scope : Scope) : ℕ := f.vector.counterFor scope

def evaluate (f : RevocationFreshnessFrontier) (scope : Scope) (incomingCounter : ℕ) :
    RevocationFreshnessDecision :=
  let scope := normalizeScope scope
  let order := (incomingVector scope incomingCounter).compare f.vector
  { scope
    localCounter := f.vector.counterFor scope
    incomingCounter
    order
    action := if order = .dominatedBy then .rejectStale else .accept }

def observe (f : RevocationFreshnessFrontier) (scope : Scope) (incomingCounter : ℕ) :
    RevocationFreshnessFrontier × RevocationFreshnessDecision :=
  let decision := f.evaluate scope incomingCounter
  if decision.isAccepted then
    (⟨f.vector.merge (incomingVector decision.scope incomingCounter)⟩, decision)
  else (f, decision)

def reconcile (f incoming : RevocationFreshnessFrontier) :
    RevocationFreshnessFrontier × VersionVectorOrder :=
  let order := incoming.vector.compare f.vector
  if order = .dominatedBy then (f, order) else (⟨f.vector.merge incoming.vector⟩, order)

end RevocationFreshnessFrontier

end Flywheel.Mesh
