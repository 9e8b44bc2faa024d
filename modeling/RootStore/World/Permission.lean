import RootStore.World.Basic

/-!
# Who may do what while passes are alive

A safepoint pass has its storage to itself: beside it nothing may delete blocks, begin another pass
or drop the storage.  A concurrent pass only shares it: beside it blocks may be deleted by the
deletion that gives way, and entries come and go, but the storage may be neither dropped nor taken
over.  A pass may not be ended by its own visitor.

This is the discipline of a storage that is lent to a safepoint pass as a whole.  It is stricter
than what can be expressed: the pass hands out a shared reference to its storage, which would let
its visitor begin a concurrent pass or delete blocks.  What comes of the latter is worked out apart
from the discipline.

* `World.mayBegin`, `World.mayEnd` — passes.
* `World.mayDelete`, `World.mayPurge`, `World.mayDrop` — storages.
-/

namespace RootStore.World

/-- May a pass be begun over the storage?  A safepoint pass needs it alone: no pass is begun beside
it, not even a concurrent one by its own visitor, which has a shared reference that would allow
it. -/
def mayBegin (w : World) (storage : Nat) (concurrent : Bool) : Bool :=
  if concurrent then !w.hasSafepointPass storage else !w.hasPass storage

/-- May the pass be ended or forgotten?  Not while one of its iterations is under way. -/
def mayEnd (w : World) (pass : Nat) : Bool := !w.isRunning pass

/-- May empty blocks be deleted by the deletion that gives way to concurrent passes? -/
def mayDelete (w : World) (storage : Nat) : Bool := !w.hasSafepointPass storage

/-- May empty blocks be deleted by the deletion that gives way to nothing? -/
def mayPurge (w : World) (storage : Nat) : Bool := !w.hasPass storage

/-- May the storage be dropped? -/
def mayDrop (w : World) (storage : Nat) : Bool := !w.hasPass storage

end RootStore.World
