/-!
Finite tables from names to values, in the order in which the names came. A name stands at most once.
-/
namespace Numlet

structure Table (α : Type) where
  entries : List (String × α)
deriving Repr, Inhabited

namespace Table

variable {α : Type}

def empty : Table α := ⟨[]⟩

def find? (t : Table α) (name : String) : Option α := t.entries.lookup name

def contains (t : Table α) (name : String) : Bool := (t.find? name).isSome

/-- Gives `name` a value, in its old place if it has one and else at the end. -/
def insertEntry (name : String) (value : α) : List (String × α) → List (String × α)
  | [] => [(name, value)]
  | (n, v) :: rest => if name = n then (n, value) :: rest else (n, v) :: insertEntry name value rest

def insert (t : Table α) (name : String) (value : α) : Table α :=
  ⟨insertEntry name value t.entries⟩

def ofList (entries : List (String × α)) : Table α :=
  entries.foldl (fun t e => t.insert e.1 e.2) empty

/-- Whether every name of `t` has the same value in `u`. -/
def isWithin [BEq α] (t u : Table α) : Bool := t.entries.all fun e => u.find? e.1 == some e.2

/-- Whether the two tables give every name the same value. -/
def agrees [BEq α] (t u : Table α) : Bool := t.isWithin u && u.isWithin t

@[simp] theorem find?_empty (name : String) : (empty : Table α).find? name = none := rfl

theorem lookup_cons (name n : String) (v : α) (rest : List (String × α)) :
    List.lookup name ((n, v) :: rest) = if name = n then some v else List.lookup name rest := by
  by_cases h : name = n
  · subst h
    simp
  · rw [List.lookup_cons, beq_false_of_ne h, if_neg h]

theorem lookup_insertEntry (name other : String) (value : α) (entries : List (String × α)) :
    (insertEntry name value entries).lookup other =
      if other = name then some value else entries.lookup other := by
  induction entries with
  | nil => rw [insertEntry, lookup_cons]
  | cons e rest ih =>
    obtain ⟨n, v⟩ := e
    by_cases hn : name = n
    · subst hn
      by_cases h : other = name <;> simp [insertEntry, lookup_cons, h]
    · by_cases h : other = n
      · subst h
        simp [insertEntry, hn, Ne.symm hn]
      · simp [insertEntry, lookup_cons, hn, h, ih]

/-- A look-up after an insertion finds the new value under its name and nothing else new. -/
theorem find?_insert (t : Table α) (name other : String) (value : α) :
    (t.insert name value).find? other = if other = name then some value else t.find? other :=
  lookup_insertEntry name other value t.entries

end Table
end Numlet
