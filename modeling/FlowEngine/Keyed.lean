/-!
# Values by name

Objects, variables and tables of named things are lists of pairs sorted by name, each name once.
Names are ordered by their code points, which is also the byte order of their UTF-8 text.
-/
namespace FlowEngine

abbrev Keyed (α : Type) := List (String × α)

namespace Keyed
variable {α β : Type}

def get? (m : Keyed α) (name : String) : Option α :=
  (m.find? (fun entry => entry.1 == name)).map (·.2)

def has (m : Keyed α) (name : String) : Bool := m.any (fun entry => entry.1 == name)

/-- Stores a value under a name, in place of the one that was there. -/
def put : Keyed α → String → α → Keyed α
  | [], name, value => [(name, value)]
  | (k, v) :: rest, name, value =>
    if name = k then (name, value) :: rest
    else if name < k then (name, value) :: (k, v) :: rest
    else (k, v) :: put rest name value

def remove (m : Keyed α) (name : String) : Keyed α := m.filter (fun entry => entry.1 != name)

def putAll (m : Keyed α) (entries : List (String × α)) : Keyed α :=
  entries.foldl (fun m entry => m.put entry.1 entry.2) m

def ofList (entries : List (String × α)) : Keyed α := putAll [] entries

def names (m : Keyed α) : List String := m.map (·.1)

def values (m : Keyed α) : List α := m.map (·.2)

def mapValues (f : α → β) (m : Keyed α) : Keyed β := m.map (fun entry => (entry.1, f entry.2))

end Keyed
end FlowEngine
