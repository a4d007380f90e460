import ApiFolio.Dict

/-!
# Chains of aliases

An alias maps a pointer to another pointer. Recording comes first; then every chain of aliases is
followed to its end at once. A chain that comes back to one of its own pointers has no end.
-/

namespace ApiFolio.OpenApi

/-- Pointers that stand for other pointers. -/
structure Aliases where
  targets : Dict String := ∅
deriving Inhabited

/-- The ends of the chains of aliases. -/
structure AliasEnds where
  /-- The end of the chain of each alias; none if the chain has no end. -/
  ends : Dict (Option String) := ∅
deriving Inhabited

namespace Aliases

/-- Records an alias, in place of what it stood for before. -/
def record (aliases : Aliases) (pointer target : String) : Aliases :=
  ⟨aliases.targets.insert pointer target⟩

def size (aliases : Aliases) : Nat := aliases.targets.size

def isEmpty (aliases : Aliases) : Bool := aliases.targets.isEmpty

/-- The end of the chain from a pointer, if it comes within the steps allowed. -/
def follow (aliases : Aliases) : Nat → String → Option String
  | 0, _ => none
  | steps + 1, pointer =>
    match aliases.targets.get? pointer with
    | none => some pointer
    | some target => follow aliases steps target

/-- The end of the chain from a pointer. A chain that goes on for more steps than there are
aliases has met one of them twice. -/
def end? (aliases : Aliases) (pointer : String) : Option String :=
  aliases.follow (aliases.size + 1) pointer

/-- Follows every chain. -/
def resolve (aliases : Aliases) : AliasEnds :=
  ⟨aliases.targets.filterMap fun pointer _ => some (aliases.end? pointer)⟩

end Aliases

/-- Where a pointer leads: to the end of its chain if it is an alias, to itself if it is none. -/
def AliasEnds.target? (ends : AliasEnds) (pointer : String) : Option String :=
  match ends.ends.get? pointer with
  | none => some pointer
  | some target => target

end ApiFolio.OpenApi
