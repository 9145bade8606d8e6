/-!
# Error numbers

The errors of the file system layers (`kern/include/kern/errno.h`).
-/

namespace OsPaging.Fs

/-- The errors that the functions modelled here return. -/
inductive Errno
  | enomem | einval | enametoolong | efbig | eisdir | exdev | eexist | enodev | enxio | enoent
  | ebusy | enotempty | enospc | emfile | enotdir | efault
deriving DecidableEq, Repr

/-- How a call ends that does not return 0. -/
inductive Failure
  /-- It returns an error. -/
  | errno (e : Errno)
  /-- An assertion fails, or the code panics. -/
  | halt
deriving DecidableEq, Repr

end OsPaging.Fs
