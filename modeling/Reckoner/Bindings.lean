import Reckoner.Binary64.Bits

/-!
# Bindings

The numbers that names stand for. A new binding of a name takes the place of the old one, and no
binding is ever removed (`SPEC_FULL.md` 3, variable environment, 57-60).
-/

namespace Reckoner

/-- Names with their numbers, in the order in which they were first bound. -/
structure Bindings where
  toList : List (String × Binary64)
  deriving DecidableEq

namespace Bindings

def empty : Bindings := ⟨[]⟩

/-- The bindings of a fresh session: pi, the base of the natural logarithm and the golden ratio. -/
def constants : Bindings :=
  ⟨[("pi", .ofBits 0x400921fb54442d18), ("e", .ofBits 0x4005bf0a8b145769),
    ("phi", .ofBits 0x3ff9e3779b97f4a8)]⟩

def get? (b : Bindings) (name : String) : Option Binary64 := b.toList.lookup name

def contains (b : Bindings) (name : String) : Bool := (b.get? name).isSome

/-- The entries with the number of a name replaced, or with a new entry at the end. -/
def insertEntry (name : String) (x : Binary64) : List (String × Binary64) → List (String × Binary64)
  | [] => [(name, x)]
  | (key, y) :: rest => if name == key then (key, x) :: rest else (key, y) :: insertEntry name x rest

def insert (b : Bindings) (name : String) (x : Binary64) : Bindings := ⟨insertEntry name x b.toList⟩

def insertMany (b : Bindings) (entries : List (String × Binary64)) : Bindings :=
  entries.foldl (fun b (name, x) => b.insert name x) b

theorem lookup_insertEntry (name key : String) (x : Binary64) (l : List (String × Binary64)) :
    (insertEntry name x l).lookup key = if key = name then some x else l.lookup key := by
  induction l with
  | nil => by_cases h : key = name <;> simp [insertEntry, List.lookup_cons, h, beq_false_of_ne]
  | cons p l ih =>
    obtain ⟨k, y⟩ := p
    by_cases hk : name = k
    · subst hk
      by_cases h : key = name
      · simp [insertEntry, h]
      · simp [insertEntry, List.lookup_cons, h, beq_false_of_ne h]
    · by_cases h : key = k
      · subst h
        simp [insertEntry, hk, Ne.symm hk]
      · simp [insertEntry, List.lookup_cons, hk, beq_false_of_ne h, ih]

@[simp] theorem get?_insert (b : Bindings) (name key : String) (x : Binary64) :
    (b.insert name x).get? key = if key = name then some x else b.get? key :=
  lookup_insertEntry name key x b.toList

end Bindings
end Reckoner
