import Mathlib.Data.Nat.Notation

/-!
# `Kernel/KResult.h`

The error codes that the modelled functions return, and the results of functions that may fail.
-/

namespace Kernel

/-- The error codes. -/
inductive Errno where
  | EINVAL
  | EFAULT
  | ENAMETOOLONG
  | ENOMEM
  | EBADF
  | ENODEV
  | EACCES
  | EPERM
  | ENXIO
  | EOVERFLOW
  | ENOTIMPL
  | ENOENT
  | ENOTDIR
  | EISDIR
  | ELOOP
  | EEXIST
  | EXDEV
  | EROFS
  | ENOTSUP
  | EDIRINTOSELF
  | EAGAIN
  | EINTR
  | EPIPE
  | ETIMEDOUT
  | EIO
  | ENOSPC
  | EHOSTUNREACH
  | ENOTCONN
deriving DecidableEq, Repr

/-- `KResultOr`. -/
abbrev KResultOr (α : Type) := Except Errno α

end Kernel
