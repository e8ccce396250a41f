import V2rayRust.Lib.SourceRun

/-!
# HTTP/2 streams

What an HTTP/2 stream answers to the two sides that use it: the DATA frames of a body, which
come in order and cut as the peer likes, and the capacity that is granted to a sender.
-/

namespace V2ray

/-- What one `poll_data` answers. -/
inductive BodyEvent
  | pending
  | data (frame : List UInt8)
  | err (message : String)
  /-- there are no more DATA frames -/
  | ended
  deriving DecidableEq, Repr

def BodyEvent.bytes : BodyEvent → List UInt8
  | data frame => frame
  | _ => []

/-- The bytes of the frames. -/
def frameBytes (es : List BodyEvent) : List UInt8 := es.flatMap BodyEvent.bytes

/-- The polls that are answered with pending. -/
def bodyPendings (es : List BodyEvent) : ℕ := es.countP (· = .pending)

@[simp] theorem frameBytes_cons (e : BodyEvent) (es : List BodyEvent) :
    frameBytes (e :: es) = e.bytes ++ frameBytes es := rfl

/-- A body that works: no poll fails, and it ends only after its last byte. -/
inductive BodyClean : List BodyEvent → Prop
  | nil : BodyClean []
  | pending {es : List BodyEvent} (rest : BodyClean es) : BodyClean (.pending :: es)
  | data {frame : List UInt8} {es : List BodyEvent} (rest : BodyClean es) :
      BodyClean (.data frame :: es)
  | ended {es : List BodyEvent} (rest : BodyClean es) (no_bytes : frameBytes es = []) :
      BodyClean (.ended :: es)

/-- What a sender that has reserved capacity meets. -/
inductive SendEvent
  | pending
  /-- so much is granted, and a frame is taken -/
  | granted (n : ℕ)
  /-- so much is granted, but a frame is refused -/
  | refused (n : ℕ) (message : String)
  /-- the stream is closed, or fails -/
  | closed
  deriving DecidableEq, Repr

end V2ray
