import MessagePipe.Text.Fields

/-!
# MessagePipe.Credentials

Who sends, receives and controls: a user id and a group id.  User 0 is
privileged.  `mayRead` is the whole access policy of a message.
-/

namespace MessagePipe

/-- The identity of a sender or a receiver. -/
structure Credentials where
  uid : UInt32
  gid : UInt32
deriving DecidableEq

namespace Credentials

/-- The privileged user in the privileged group. -/
def root : Credentials := ⟨0, 0⟩

/-- Only user 0 may clear a pipe or change its expiry. -/
def isPrivileged (c : Credentials) : Bool := c.uid == 0

/-- A message is open to user 0, to its owner, and to everybody in its owner's group. -/
def mayRead (reader owner : Credentials) : Bool :=
  reader.uid == 0 || reader.uid == owner.uid || reader.gid == owner.gid

def text (c : Credentials) : String :=
  Text.fields "Credentials" [Text.field "uid" (toString c.uid), Text.field "gid" (toString c.gid)]

/-- The policy, read as a proposition. -/
theorem mayRead_iff {reader owner : Credentials} :
    reader.mayRead owner = true ↔
      reader.uid = 0 ∨ reader.uid = owner.uid ∨ reader.gid = owner.gid := by
  simp [mayRead, or_assoc]

end Credentials

end MessagePipe
