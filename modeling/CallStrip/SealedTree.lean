import CallStrip.Disk

/-!
A tree with files whose content is kept from its reader. They are found like any others.
-/

namespace CallStrip

structure SealedTree where
  tree : FileTree
  sealed : List Location
  deriving DecidableEq

namespace SealedTree

def refusal : IoCause := .reported .permissionDenied "Permission denied (os error 13)".toList

def read (d : SealedTree) (p : Path) : Except IoCause Bytes := do
  if (← d.tree.find p) ∈ d.sealed then throw refusal else d.tree.read p

def within {α : Type} (x : StateM FileTree α) : StateM SealedTree α := fun d =>
  ((x d.tree).1, ⟨(x d.tree).2, d.sealed⟩)

instance : Disk (StateM SealedTree) where
  read p := fun d => (d.read p, d)
  write p content := within (Disk.write p content)
  makeFolder p := within (Disk.makeFolder p)
  isFolder p := within (Disk.isFolder p)
  present p := within (Disk.present p)
  readFolder p := within (Disk.readFolder p)

end SealedTree

end CallStrip
