import MapFilter.Chain.Canonical
import MapFilter.Reading.Chain

/-!
# Editing

A chain may be built up and changed step by step. A step that fails leaves the chain as it was.

* `Edit`, `Reply`, `Chain.edit`;
* `Chain.edits`: a sequence of steps, with the reply to each and the chain after it.
-/

namespace MapFilter

/-- A step in the life of a chain. Indexes count from zero. -/
inductive Edit where
  /-- Adds the call of a text at the end. -/
  | push (text : List Char)
  /-- Puts the chain of a text in the place of the chain. -/
  | load (text : List Char)
  /-- Adds the call of a text at an index. -/
  | insert (text : List Char) (index : Nat)
  | noOpMap
  | noOpFilter
  | clear
  /-- Removes the last call. -/
  | pop
  /-- Lets two calls change places. -/
  | swap (i j : Nat)
  /-- Puts the chain after itself. -/
  | double
  | reverse
  | fuse
  /-- Moves the map at an index past the filter after it. -/
  | commute (index : Nat)
  | refactor
  /-- Puts a number expression in the place of `element` everywhere. -/
  | substitute (text : List Char)
  | apply (x : Int32)
  | trace (x : Int32)
  /-- Asks for the kinds of the calls. -/
  | kinds
  /-- Asks whether two calls are the same. -/
  | equal (i j : Nat)
  /-- Asks whether the text of the chain is read as the chain. -/
  | reparse

/-- The answer to a step. -/
inductive Reply where
  | done
  /-- A text was not read. -/
  | rejected (code : Diagnostic.Code)
  /-- An index lies beyond the end. -/
  | outOfRange
  /-- The call that was removed, if there was one. -/
  | removed (call : Option Call)
  | count (n : Nat)
  | verdict (holds : Bool)
  | steps (fusions commutations : Nat)
  | value (x : Option Int32)
  | values (xs : List (Option Int32))
  | kinds (ks : List Call.Kind)

namespace Chain

/-- Goes on with what a text was read as, or replies with the fault. -/
def editWith {α : Type} (c : Chain) (r : Except Diagnostic.Code α) (f : α → Reply × Chain) :
    Reply × Chain :=
  match r with
  | .ok a => f a
  | .error e => (.rejected e, c)

/-- The call of a text, or the code of its fault. -/
def callOf (text : List Char) : Except Diagnostic.Code Call :=
  (readSingleCall (.whole text)).mapError (·.diagnostic.code)

/-- The chain of a text, or the code of its fault. -/
def chainOf (text : List Char) : Except Diagnostic.Code Chain :=
  (readChain (.whole text)).result.mapError (·.diagnostic.code)

/-- The number expression of a text, or the code of its fault. -/
def numberOf (text : List Char) : Except Diagnostic.Code NumExpr :=
  (readNumber (.whole text)).mapError (·.code)

/-- The chain with the calls at two indexes in each other's place. -/
def swap? (xs : Chain) (i j : Nat) : Option Chain :=
  match xs[i]?, xs[j]? with
  | some a, some b => some ((xs.set i b).set j a)
  | _, _ => none

/-- The reply to a step, and the chain after it. -/
def edit (xs : Chain) : Edit → Reply × Chain
  | .push t => xs.editWith (callOf t) fun a => (.done, xs ++ [a])
  | .load t => xs.editWith (chainOf t) fun d => (.done, d)
  | .insert t i =>
    if i ≤ xs.length then xs.editWith (callOf t) fun a => (.done, xs.take i ++ a :: xs.drop i)
    else (.outOfRange, xs)
  | .noOpMap => (.done, xs ++ [Call.noOpMap])
  | .noOpFilter => (.done, xs ++ [Call.noOpFilter])
  | .clear => (.done, [])
  | .pop => (.removed xs.getLast?, xs.dropLast)
  | .swap i j =>
    match xs.swap? i j with
    | some d => (.done, d)
    | none => (.outOfRange, xs)
  | .double => (.done, xs ++ xs)
  | .reverse => (.done, xs.reverse)
  | .fuse => (.count xs.fuse.2, xs.fuse.1)
  | .commute i =>
    match xs.commute i with
    | some d => (.verdict true, d)
    | none => (.verdict false, xs)
  | .refactor => (.steps xs.refactor.fusions xs.refactor.commutations, xs.refactor.chain)
  | .substitute t => xs.editWith (numberOf t) fun e => (.done, xs.map (·.subst e))
  | .apply x => (.value (xs.apply x), xs)
  | .trace x => (.values (xs.trace (some x)), xs)
  | .kinds => (.kinds (xs.map Call.kind), xs)
  | .equal i j => (.verdict (xs[i]? == xs[j]?), xs)
  | .reparse => xs.editWith (chainOf xs.render) fun d => (.verdict (d == xs), xs)

/-- The replies to a sequence of steps, each with the chain after it. -/
def edits : Chain → List Edit → List (Reply × Chain)
  | _, [] => []
  | c, e :: es =>
    let r := c.edit e
    r :: edits r.2 es

end Chain

end MapFilter
