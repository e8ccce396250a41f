import V2rayRust.Lib.Trace

/-!
# What all modules share

`common/mod.rs`: the unit in which buffers are sized, and `new_error`, by which the code makes its
own errors and wraps most of those that libraries return. Where an error is passed on by `?` alone
its text stays as it was, so the two kinds can be told apart by how they begin.
-/

namespace V2ray

/-- `LW_BUFFER_SIZE`, the unit in which buffers are sized -/
def lwBufferSize : ℕ := 1024

/-- The text of the error that `new_error` makes of a message. -/
def newErrorText (message : String) : String := "Error: " ++ message

/-- `new_error`, in a computation that a fault can stop as well. -/
def newError (message : String) : Stop := .err (newErrorText message)

end V2ray
