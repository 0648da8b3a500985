import BoolCalc.Expr
import BoolCalc.Limits

namespace BoolCalc

/-!
# The cache of trees

* `TreeObject` : a tree as one object among others, which may be equal to it;
* `CacheKey` : what the tree of a text depends on;
* `TreeCache`, `TreeCache.get?`, `TreeCache.insert` : the trees of the first texts, up to a capacity.
-/

/-- A tree with the number of its making, so that two objects made apart differ in `birth`. -/
structure TreeObject where
  /-- The number of trees made before it, see `Memory.births`. -/
  birth : Nat
  tree : Expr
  deriving DecidableEq, Repr, Inhabited

/-- What the tree of an expression depends on. -/
structure CacheKey where
  /-- The preference `acceptBang`: the same text may have another tree in the other dialect. -/
  bang : Bool
  text : String
  deriving DecidableEq, Repr, Inhabited

/-- Trees by the `CacheKey`s they were made for. -/
structure TreeCache where
  /-- The most `entries` it may have. -/
  capacity : Nat
  /-- The keys with their trees, the most recent first. -/
  entries : List (CacheKey × TreeObject)
  deriving Repr, Inhabited

namespace TreeCache

/-- An empty cache; no cache holds more than `Limits.cached` trees. -/
def ofCapacity (capacity : Nat) : TreeCache := ⟨min capacity Limits.cached, []⟩

/-- An empty cache for `Limits.cached` trees. -/
def empty : TreeCache := ofCapacity Limits.cached

def size (c : TreeCache) : Nat := c.entries.length

def get? (c : TreeCache) (key : CacheKey) : Option TreeObject := c.entries.lookup key

/-- The object that is used for `key` from now on, and the cache afterwards. An object that is there already stays
and is used in place of `made`; a full cache takes no more. -/
def insert (c : TreeCache) (key : CacheKey) (made : TreeObject) : TreeObject × TreeCache :=
  match c.get? key with
  | some kept => (kept, c)
  | none =>
    if c.size < c.capacity then (made, { c with entries := (key, made) :: c.entries })
    else (made, c)

end TreeCache

end BoolCalc
