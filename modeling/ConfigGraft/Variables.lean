import ConfigGraft.Association

/-!
# Variables

Named values, and chains of sources in which the first source that has a value decides. Whoever
only looks up values takes any function from names to values, a chain being one of them.
-/

namespace ConfigGraft

/-- Named values, each name at most once, in the order in which the names first got a value. -/
structure Variables where
  entries : List (String × String) := []
  deriving DecidableEq, Repr

namespace Variables

/-- Gives a name a value, in place of an earlier one. -/
def insert (name value : String) (vars : Variables) : Variables :=
  ⟨Association.put name value vars.entries⟩

/-- The value of a name. -/
def value? (vars : Variables) (name : String) : Option String := vars.entries.lookup name

/-- The last value that a name was given counts. -/
theorem value?_insert (name value other : String) (vars : Variables) :
    (vars.insert name value).value? other =
      if other = name then some value else vars.value? other :=
  Association.lookup_put name value other vars.entries

def size (vars : Variables) : Nat := vars.entries.length

def isEmpty (vars : Variables) : Bool := vars.entries.isEmpty

end Variables

/-- Where values are looked up: the value of a name, if it has one. -/
abbrev Resolver := String → Option String

/-- Where values are looked up in several sources, whatever their kind: the first that has a value
for the name decides. -/
def Resolver.ofSources (sources : List Resolver) : Resolver :=
  fun name => sources.findSome? fun source => source name

/-- Sources of values that are read from variables, the most important first. -/
structure Chain where
  sources : List Variables := []

namespace Chain

/-- The value of a name in the first source that has one. -/
def value? (chain : Chain) : Resolver := Resolver.ofSources (chain.sources.map Variables.value?)

instance : Coe Chain Resolver := ⟨value?⟩

/-- How a chain shows itself in a report. -/
def report (chain : Chain) : String :=
  s!"CompositeResolver \x7b sources: {chain.sources.length} \x7d"

end Chain

end ConfigGraft
