import Mathlib.Tactic.Common

/-! The error numbers that the drivers and the labs return, negated, as C `int`s.  The values are
those of the target's C library; only that they are positive and distinct matters. -/

namespace CortexLabs.Errno

abbrev enoent : Int := 2
abbrev eio : Int := 5
abbrev ewouldblock : Int := 11
abbrev enomem : Int := 12
abbrev eacces : Int := 13
abbrev efault : Int := 14
abbrev ebusy : Int := 16
abbrev eexist : Int := 17
abbrev enodev : Int := 19
abbrev einval : Int := 22
abbrev enospc : Int := 28
abbrev enobufs : Int := 105
abbrev ealready : Int := 120
abbrev enotsup : Int := 134
abbrev eilseq : Int := 138

end CortexLabs.Errno
