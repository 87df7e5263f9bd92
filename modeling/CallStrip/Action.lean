import CallStrip.Disk
import CallStrip.Failure

/-!
Actions on a disk that may fail. A failed action keeps what was done to the disk before it failed.
-/

namespace CallStrip

abbrev Action (m : Type → Type) := ExceptT Failure m

namespace Action

variable {m : Type → Type} [Monad m] {α ε : Type}

def ofExcept (f : ε → Failure) : Except ε α → Action m α
  | .ok a => pure a
  | .error e => throw (f e)

def attempt (what : Text) (x : m (Except IoCause α)) : Action m α :=
  ExceptT.mk do
    match ← x with
    | .ok a => return .ok a
    | .error c => return .error (.io ((IoError.ofCause c).within what))

end Action

end CallStrip
