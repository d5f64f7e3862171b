import Paraxiom.Pallets.Frame

/-!
# The parachain inherent

`MessageQueueChain` of `primitives/parachain-inherent/src/lib.rs`, which represents a queue of
messages by one hash, and `mock.rs`, which makes up the messages of a block and the hashes that
the relay chain would hold for them.

BLAKE2 and the builder of the storage proof are third-party code. The hash is a parameter, and
so is what the builder makes of the values that it is given.
-/

namespace Paraxiom.ParachainInherent

open Scale Std

/-- The bytes of a message. No more can be encoded: a vector is written after its length, which
    is a `Compact<u32>`. -/
abbrev Data := BoundedVec (2 ^ 32 - 1)

instance : LawfulCodec Data := BoundedVec.lawfulCodec (by decide)

structure InboundHrmpMessage where
  sentAt : UInt32
  data : Data
deriving DecidableEq

structure InboundDownwardMessage where
  sentAt : UInt32
  msg : Data
deriving DecidableEq

variable (blake2 : Bytes → H256)

/-- `BlakeTwo256::hash_of`. -/
def hashOf {α : Type} [Codec α] (x : α) : H256 := blake2 (encode x)

/-! ## Message queue chains -/

/-- `MessageQueueChain`, with its accessor. -/
structure MessageQueueChain where
  head : H256

/-- What both directions extend the chain by. -/
def MessageQueueChain.extend (self : MessageQueueChain) (sentAt : UInt32) (data : Data) :
    MessageQueueChain :=
  ⟨hashOf blake2 (self.head, sentAt, hashOf blake2 data)⟩

/-- Extend the hash chain with an HRMP message. -/
def MessageQueueChain.extendHrmp (self : MessageQueueChain)
    (horizontalMessage : InboundHrmpMessage) : MessageQueueChain :=
  self.extend blake2 horizontalMessage.sentAt horizontalMessage.data

/-- Extend the hash chain with a downward message. -/
def MessageQueueChain.extendDownward (self : MessageQueueChain)
    (downwardMessage : InboundDownwardMessage) : MessageQueueChain :=
  self.extend blake2 downwardMessage.sentAt downwardMessage.msg

/-! ## The mocked inherent -/

namespace MockProvider

end MockProvider

end Paraxiom.ParachainInherent
