/-!
# `Bindings` — values by name, in declaration order

Containers and records keep their variables the same way: a list of names with their values, in
the order in which the names were first declared. Giving a name a new value or a new name keeps its
place; only a name that was not there goes to the end.

A name occurs once (`Bindings.Unique`), so *the* value of a name is the first one with that name.
The operations keep this, as long as `rename` is asked for a name that is free. They are total on
all lists all the same, and need no proof to run.
-/

set_option autoImplicit false

namespace ScopedVars

/-- Names with their values, in declaration order. -/
abbrev Bindings (α : Type) := List (String × α)

namespace Bindings

variable {α : Type}

/-- The names, in declaration order. -/
def names (b : Bindings α) : List String :=
  b.map Prod.fst

/-- No name is bound twice. -/
def Unique (b : Bindings α) : Prop :=
  b.names.Nodup

/-- The value of a name. -/
def get? : Bindings α → String → Option α
  | [], _ => none
  | (n, v) :: rest, name => if n = name then some v else get? rest name

/-- Whether a name has a value. -/
def has (b : Bindings α) (name : String) : Bool :=
  (b.get? name).isSome

/-- The place of a name, counted from 0. -/
def position? : Bindings α → String → Option Nat
  | [], _ => none
  | (n, _) :: rest, name => if n = name then some 0 else (position? rest name).map (· + 1)

/-- Gives a name a value: in its place if the name is bound, at the end if it is not. -/
def insert : Bindings α → String → α → Bindings α
  | [], name, value => [(name, value)]
  | (n, v) :: rest, name, value =>
    if n = name then (n, value) :: rest else (n, v) :: insert rest name value

/-- Drops a name and keeps the order of the others. -/
def erase : Bindings α → String → Bindings α
  | [], _ => []
  | (n, v) :: rest, name => if n = name then rest else (n, v) :: erase rest name

/-- Writes another name over a name, in its place and with its value. The other name should be
free. -/
def rename : Bindings α → String → String → Bindings α
  | [], _, _ => []
  | (n, v) :: rest, old, new =>
    if n = old then (new, v) :: rest else (n, v) :: rename rest old new

/-- The bindings that a list of pairs gives when its pairs are inserted one after the other. -/
def ofList (pairs : List (String × α)) : Bindings α :=
  pairs.foldl (fun b pair => insert b pair.1 pair.2) []

end Bindings

end ScopedVars
