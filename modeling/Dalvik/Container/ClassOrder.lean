/-
# The order of classes

Classes are written with their supertypes before them, as far as those are in the same container.
A search in depth goes from each class to its superclass and its interfaces, in that order, and
lists a class when it leaves it.  A class is entered once, so cycles do no harm: the class that the
search enters first comes last.  Of two definitions of one descriptor the first counts.
-/
import Dalvik.Class.Basic

namespace Dalvik

namespace ClassDef

/-- The superclass, if there is one, and the interfaces. -/
def supertypes (c : ClassDef) : List String :=
  c.superclass?.toList ++ c.interfaces

/-- The definition of a descriptor. -/
def definition? (classes : List ClassDef) (descriptor : String) : Option ClassDef :=
  classes.find? fun c => c.descriptor == descriptor

/-- The first definition of each descriptor. -/
def firstDefinitions : List ClassDef → List ClassDef
  | [] => []
  | c :: rest => c :: (firstDefinitions rest).filter fun d => d.descriptor != c.descriptor

/-- How far the search has come. -/
structure Search where
  /-- The descriptors of the classes that it has entered. -/
  entered : List String := []
  /-- The classes that it has left, in order. -/
  ordered : List ClassDef := []

/-- Enters a class unless it has been entered, and then its supertypes (`visit`).  Each level below
another enters a class of its own, so as many levels as classes are enough. -/
def visit (classes : List ClassDef) : (levels : Nat) → Search → ClassDef → Search
  | 0, s, _ => s
  | levels + 1, s, c =>
    if s.entered.contains c.descriptor then
      s
    else
      let entered := { s with entered := c.descriptor :: s.entered }
      let above := (c.supertypes.filterMap (definition? classes)).foldl (visit classes levels)
        entered
      { above with ordered := above.ordered ++ [c] }

/-- **The order of writing** (`order_classes`). -/
def inOrder (classes : List ClassDef) : List ClassDef :=
  let classes := firstDefinitions classes
  (classes.foldl (visit classes classes.length) {}).ordered

end ClassDef

end Dalvik
