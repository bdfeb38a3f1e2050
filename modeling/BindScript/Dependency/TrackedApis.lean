import BindScript.Entries

/-!
Host objects whose method calls are dependencies of their own. An object that is entered without methods
has all its calls tracked.
-/

namespace BindScript.Dependency

/-- Objects and their tracked methods; no methods stands for all. -/
structure TrackedApis where
  objects : Entries (List String) := []
  deriving DecidableEq, Repr

namespace TrackedApis

/-- Tracks one method of an object. -/
def addMethod (apis : TrackedApis) (object method : String) : TrackedApis :=
  ⟨apis.objects.alter object [] (insertNew · method)⟩

/-- Tracks every method of an object. -/
def addObject (apis : TrackedApis) (object : String) : TrackedApis :=
  ⟨apis.objects.insert object []⟩

/-- Whether calls of the method of the object are tracked. -/
def tracks (apis : TrackedApis) (object method : String) : Bool :=
  match apis.objects.get? object with
  | none => false
  | some methods => methods.isEmpty || methods.contains method

/-- Whether nothing is tracked. -/
def isEmpty (apis : TrackedApis) : Bool :=
  apis.objects.isEmpty

end TrackedApis

end BindScript.Dependency
