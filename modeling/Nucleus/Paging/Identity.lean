import Nucleus.Journal
import Nucleus.Paging.Memory

/-!
# Identity map

The tree the kernel boots on: it maps every address below `identityEnd` to itself with large
pages. Its tables lie in consecutive frames: the top table, one table of directories, and one
directory for each gigabyte.
-/

namespace Nucleus.IdentityMap
open Platform

def target : String := "kernel_vmem::identity"

/-- The number of tables. -/
def tableCount : Nat := 2 + directoryCount

/-- Bytes that the tables take up. -/
def size : Nat := tableCount * frameBytes

/-- The frame of the table of directories of the map at `root`. -/
def directories (root : Nat) : Nat := root + 1

/-- The frame of directory `i` of the map at `root`. -/
def directory (root i : Nat) : Nat := root + 2 + i

/-- An entry for supervisor code that may write. -/
def kernelEntry : Entry := { Entry.zero with present := true, writable := true }

/-- The directory that maps gigabyte `i` to itself. -/
def directoryTable (i : Nat) : Table :=
  Vector.ofFn fun j : Fin 512 =>
    { kernelEntry with huge := true }.setPointer (i * directoryBytes + j * largePageBytes)

/-- Cleared tables at `root`. -/
def clear (m : Memory) (root : Nat) : Memory :=
  (List.range tableCount).foldl (fun m k => m.clear (root + k)) m

/-- Link directory `i` and fill it. -/
def buildDirectory (root : Nat) (m : Memory) (i : Nat) : Memory :=
  let m := m.put (directories root) (Fin.ofNat 512 i)
    (kernelEntry.setPointer (directory root i * frameBytes))
  m.putTable (directory root i) (directoryTable i)

/-- Fill in the tables of the map at `root`. -/
def build (m : Memory) (root : Nat) : Logged Memory := do
  let m := m.put root 0 (kernelEntry.setPointer (directories root * frameBytes))
  let m := (List.range directoryCount).foldl (buildDirectory root) m
  let address := Word.hex (root * frameBytes)
  Logged.note .info target s!"identity map: {directoryCount} GiB with 2 MiB pages, root {address}"
  pure m

end Nucleus.IdentityMap
